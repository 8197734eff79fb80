/-
Scores: the one kind of number here that is not an index.

A score is held as the shortest decimal that identifies its 64-bit binary value,
so that printing is a matter of layout and two scores are equal exactly when
their binary values are. `ofNumeral?` reads one: it takes as many leading digits
as fit 64 bits, and scales them by one multiplication or division by a power of
ten, each step rounded. For a decimal of up to fifteen digits all of this is the
identity.
-/
import PriceTaint.Decimal.Binary64
import PriceTaint.Json.Numeral

set_option autoImplicit false

namespace PriceTaint

/-- A decimal `±digits · 10^exponent` without trailing zeros in its digits. -/
structure Score where
  negative : Bool
  digits : Nat
  exponent : Int
deriving DecidableEq, Repr

namespace Score

open Binary64

/-! ## Reading -/

/-- The leading digits of a numeral that fit 64 bits, with the power of ten that
the rest amounts to. -/
structure Leading where
  digits : Nat
  power : Int
deriving Repr

/-- Can another digit be appended without leaving 64 bits? -/
def Leading.fits (digits digit : Nat) : Bool :=
  decide (digits * 10 + digit < Numeral.indexLimit)

/-- One digit before the point. After the first digit that did not fit, every
digit only counts as a power of ten. -/
def Leading.pushWhole (l : Leading) (c : Char) : Leading :=
  let digit := c.toNat - '0'.toNat
  if l.power = 0 ∧ Leading.fits l.digits digit then ⟨l.digits * 10 + digit, 0⟩
  else ⟨l.digits, l.power + 1⟩

/-- The digits after the point, up to the first that does not fit. -/
def Leading.pushFraction (l : Leading) : List Char → Leading
  | [] => l
  | c :: cs =>
    let digit := c.toNat - '0'.toNat
    if Leading.fits l.digits digit then
      Leading.pushFraction ⟨l.digits * 10 + digit, l.power - 1⟩ cs
    else l

/-- The leading digits of a numeral and the power of ten they are scaled by. -/
def leading (n : Numeral) : Leading :=
  let l := (n.whole.foldl Leading.pushWhole ⟨0, 0⟩).pushFraction n.fraction
  ⟨l.digits, l.power + n.power⟩

/-- The largest power of ten that is a binary value. -/
def maxPower : Nat := 308

/-- The binary value of `10^k`. -/
def powerOfTen (k : Nat) : Option Magnitude :=
  nearest ⟨Nat.pow 10 k, 1⟩

/-- `m / 10^k`, rounded. -/
def divide (m : Magnitude) (k : Nat) : Option Magnitude := do
  nearest (m.toQuotient.div (← powerOfTen k).toQuotient)

/-- The binary value of a numeral without its sign; `none` is overflow. -/
def magnitude? (l : Leading) : Option Magnitude := do
  let start ← nearest ⟨l.digits, 1⟩
  if l.digits = 0 then return start
  else if l.power > maxPower then none
  else if 0 ≤ l.power then
    nearest (start.toQuotient.mul (← powerOfTen l.power.toNat).toQuotient)
  else if -l.power ≤ maxPower then divide start (-l.power).toNat
  else if -l.power ≤ 2 * maxPower then
    divide (← divide start maxPower) (-l.power - maxPower).toNat
  else return ⟨0, minExponent⟩

/-- Is the numeral inside the range of binary values? A power below 289 keeps
any 64-bit row of digits inside. -/
def inRange (n : Numeral) : Bool :=
  let l := leading n
  decide (l.power < 289) || (magnitude? l).isSome

/-- Reads a score. Every numeral is one unless it overflows. -/
def ofNumeral? (n : Numeral) : Option Score :=
  (magnitude? (leading n)).map fun m =>
    let d := m.shortest
    ⟨n.negative, d.digits, d.exponent⟩

/-! ## Writing -/

/-- Is the leading digit written at this place before the point positionally?
Places beyond sixteen before the point, or six after it, take an exponent. -/
def positional (place : Int) : Bool :=
  decide (-5 < place) && decide (place ≤ 16)

/-- A power of ten as the exponent of a numeral, always with a sign. -/
def exponentText (power : Int) : List Char :=
  if power < 0 then '-' :: Nat.toDigits 10 (-power).toNat
  else '+' :: Nat.toDigits 10 power.toNat

/-- The numeral of a score. A point and a digit after it are always written,
unless an exponent is. -/
def toNumeral (s : Score) : Numeral :=
  if s.digits = 0 then ⟨s.negative, ['0'], ['0'], []⟩
  else
    let row := Nat.toDigits 10 s.digits
    let place : Int := row.length + s.exponent
    if positional place then
      if 0 ≤ s.exponent then
        ⟨s.negative, row ++ List.replicate s.exponent.toNat '0', ['0'], []⟩
      else if 0 < place then
        ⟨s.negative, row.take place.toNat, row.drop place.toNat, []⟩
      else ⟨s.negative, ['0'], List.replicate (-place).toNat '0' ++ row, []⟩
    else ⟨s.negative, row.take 1, row.drop 1, exponentText (place - 1)⟩

end Score

end PriceTaint
