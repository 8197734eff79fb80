/-
Binary floating point in exact arithmetic.

Scores pass through 64-bit binary floating point on their way from text to text,
so a score with very many digits comes out rounded. Everything here is done on
natural numbers: a magnitude is `mantissa · 2^exponent`, `nearest` rounds a
quotient to the closest magnitude with ties to the even mantissa, and `shortest`
finds the fewest decimal digits that round back to a magnitude.

The search for the fewest digits looks, for one digit, two digits and so on, at
the two neighbours of the value on that decimal grid. If any point of a grid
rounds to the magnitude, one of those two does, because the points that round to
it form an interval around the value. Seventeen digits always suffice.
-/

set_option autoImplicit false

namespace PriceTaint.Binary64

/-- A non-negative finite number `mantissa · 2^exponent`. -/
structure Magnitude where
  mantissa : Nat
  exponent : Int
deriving DecidableEq, Repr

/-- The least exponent of a magnitude, that of the subnormal numbers. -/
def minExponent : Int := -1074

/-- The largest exponent of a magnitude. -/
def maxExponent : Int := 971

/-- A quotient of natural numbers. -/
structure Quotient where
  num : Nat
  den : Nat
deriving Repr

/-- `q · 2^k`, for a possibly negative `k`. -/
def Quotient.shift (q : Quotient) (k : Int) : Quotient :=
  ⟨q.num * Nat.pow 2 k.toNat, q.den * Nat.pow 2 (-k).toNat⟩

/-- `q · 10^k`, for a possibly negative `k`. -/
def Quotient.scale (q : Quotient) (k : Int) : Quotient :=
  ⟨q.num * Nat.pow 10 k.toNat, q.den * Nat.pow 10 (-k).toNat⟩

def Quotient.mul (a b : Quotient) : Quotient := ⟨a.num * b.num, a.den * b.den⟩

def Quotient.div (a b : Quotient) : Quotient := ⟨a.num * b.den, a.den * b.num⟩

/-- The natural number closest to a quotient; a half goes to the even
neighbour. -/
def Quotient.round (q : Quotient) : Nat :=
  let below := q.num / q.den
  let twice := 2 * (q.num % q.den)
  if twice < q.den then below
  else if twice > q.den then below + 1
  else below + below % 2

/-- A magnitude as a quotient. -/
def Magnitude.toQuotient (m : Magnitude) : Quotient :=
  Quotient.shift ⟨m.mantissa, 1⟩ m.exponent

/-- The exponent under which a positive quotient has a mantissa of 53 bits, or
the least exponent if that is larger. -/
def exponentOf (q : Quotient) : Int :=
  let k : Int := (Nat.log2 q.num : Int) - (Nat.log2 q.den : Int) - 52
  let scaled := q.shift (-k)
  max minExponent (if scaled.num < scaled.den * Nat.pow 2 52 then k - 1 else k)

/-- The magnitude closest to a quotient; a half goes to the even mantissa, and
`none` is overflow. -/
def nearest (q : Quotient) : Option Magnitude :=
  if q.num = 0 then some ⟨0, minExponent⟩
  else
    let e := exponentOf q
    let m := (q.shift (-e)).round
    -- Rounding up can reach the next power of two.
    let (m, e) := if m = Nat.pow 2 53 then (Nat.pow 2 52, e + 1) else (m, e)
    if e > maxExponent then none else some ⟨m, e⟩

/-- A decimal `digits · 10^exponent`. -/
structure Decimal where
  digits : Nat
  exponent : Int
deriving DecidableEq, Repr

/-- Does the decimal round to the magnitude? The neighbouring half-way points
round to it exactly when its mantissa is even. -/
def Magnitude.accepts (m : Magnitude) (d : Decimal) : Bool :=
  -- In quarters of a unit in the last place, to stay with natural numbers.
  let scaled := (Quotient.scale ⟨4 * d.digits, 1⟩ d.exponent).shift (-m.exponent)
  let lower := if m.mantissa = Nat.pow 2 52 ∧ m.exponent ≠ minExponent
    then 4 * m.mantissa - 1 else 4 * m.mantissa - 2
  let upper := 4 * m.mantissa + 2
  if m.mantissa % 2 = 0 then
    decide (lower * scaled.den ≤ scaled.num) && decide (scaled.num ≤ upper * scaled.den)
  else
    decide (lower * scaled.den < scaled.num) && decide (scaled.num < upper * scaled.den)

/-- The exponent of the leading decimal digit of a positive quotient. -/
def leadingExponent (q : Quotient) : Int :=
  if q.den ≤ q.num then ((Nat.toDigits 10 (q.num / q.den)).length : Int) - 1
  else
    match (List.range 400).find? fun j => q.den ≤ q.num * Nat.pow 10 (j + 1) with
    | some j => -((j : Int) + 1)
    | none => -400

/-- The better of the two neighbours of the value on the grid of `10^unit`. -/
def Magnitude.onGrid? (m : Magnitude) (unit : Int) : Option Decimal :=
  let q := m.toQuotient.scale (-unit)
  let below := q.num / q.den
  let low : Decimal := ⟨below, unit⟩
  let high : Decimal := ⟨below + 1, unit⟩
  let twice := 2 * (q.num % q.den)
  let lowIsNearer := decide (twice < q.den) || (decide (twice = q.den) && below % 2 == 0)
  match m.accepts low, m.accepts high with
  | true, true => some (if lowIsNearer then low else high)
  | true, false => some low
  | false, true => some high
  | false, false => none

/-- Strips trailing zeros of the digits, at most `fuel` of them. -/
def Decimal.strip : Nat → Decimal → Decimal
  | 0, d => d
  | fuel + 1, d =>
    if d.digits ≠ 0 ∧ d.digits % 10 = 0 then Decimal.strip fuel ⟨d.digits / 10, d.exponent + 1⟩
    else d

/-- The decimal with the fewest digits that rounds to the magnitude, and of
those the nearest. -/
def Magnitude.shortest (m : Magnitude) : Decimal :=
  if m.mantissa = 0 then ⟨0, 0⟩
  else
    let top := leadingExponent m.toQuotient
    match (List.range 17).findSome? fun (n : Nat) => m.onGrid? (top - (n : Int)) with
    | some d => d.strip 18
    | none => ⟨0, 0⟩

end PriceTaint.Binary64
