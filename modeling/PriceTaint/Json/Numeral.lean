/-
Numerals as they are written in JSON text.

A numeral is kept as its pieces and not as a number, because the two readers of
numerals want different things: an index accepts only a plain row of digits
below `2^64`, so `1.0`, `1e0` and `-0` are no indices, while a score accepts any
numeral and rounds it. `ofText?` is the grammar of JSON and nothing more.
-/

set_option autoImplicit false

namespace PriceTaint

/-- A JSON numeral: sign, digits before the point, digits after it, and the
exponent with its sign, if it is written with one. `fraction` and `exponent` are empty when the numeral is
written without a point or without an exponent. -/
structure Numeral where
  negative : Bool
  whole : List Char
  fraction : List Char
  exponent : List Char
deriving DecidableEq, Repr

namespace Numeral

/-! ## Writing -/

/-- The numeral of a natural number: its decimal digits. -/
def ofNat (n : Nat) : Numeral :=
  ⟨false, Nat.toDigits 10 n, [], []⟩

/-- The text of a numeral. -/
def text (n : Numeral) : List Char :=
  (if n.negative then ['-'] else [])
    ++ n.whole
    ++ (if n.fraction.isEmpty then [] else '.' :: n.fraction)
    ++ (if n.exponent.isEmpty then [] else 'e' :: n.exponent)

/-! ## Reading -/

/-- The characters that can stand in a numeral. A reader collects a longest run
of them and hands it to `ofText?`. -/
def isPart (c : Char) : Bool :=
  c.isDigit || c == '-' || c == '+' || c == '.' || c == 'e' || c == 'E'

/-- A row of digits without a superfluous leading zero. -/
def isWhole : List Char → Bool
  | [] => false
  | ['0'] => true
  | c :: cs => c.isDigit && c != '0' && cs.all Char.isDigit

/-- An exponent without its mark: an optional sign and at least one digit. -/
def exponent? : List Char → Option (List Char)
  | [] => none
  | '-' :: ds => if !ds.isEmpty && ds.all Char.isDigit then some ('-' :: ds) else none
  | '+' :: ds => if !ds.isEmpty && ds.all Char.isDigit then some ('+' :: ds) else none
  | ds => if ds.all Char.isDigit then some ds else none

/-- What may follow the digits before an exponent: nothing, or a mark and the
exponent. -/
def tail? : List Char → Option (List Char)
  | [] => some []
  | 'e' :: cs => exponent? cs
  | 'E' :: cs => exponent? cs
  | _ => none

/-- Reads a numeral without its sign. -/
def unsigned? (negative : Bool) (cs : List Char) : Option Numeral :=
  let whole := cs.takeWhile Char.isDigit
  if !isWhole whole then none
  else match cs.dropWhile Char.isDigit with
    | '.' :: rest =>
      let fraction := rest.takeWhile Char.isDigit
      if fraction.isEmpty then none
      else (tail? (rest.dropWhile Char.isDigit)).map fun exponent =>
        ⟨negative, whole, fraction, exponent⟩
    | rest => (tail? rest).map fun exponent => ⟨negative, whole, [], exponent⟩

/-- Reads a numeral from its whole text. -/
def ofText? : List Char → Option Numeral
  | '-' :: cs => unsigned? true cs
  | cs => unsigned? false cs

/-! ## Meaning -/

/-- The number a row of digits stands for. -/
def value (digits : List Char) : Nat :=
  Nat.ofDigitChars 10 digits 0

/-- The exponent as a number; zero when none is written. -/
def power (n : Numeral) : Int :=
  match n.exponent with
  | '-' :: ds => -(value ds : Int)
  | '+' :: ds => value ds
  | ds => value ds

/-- The largest index is one less than this power of two, `2^64`. -/
def indexLimit : Nat := 18446744073709551616

/-- The numeral as an index: a plain row of digits below `2^64`. -/
def toIndex? (n : Numeral) : Option Nat :=
  if n.negative || !n.fraction.isEmpty || !n.exponent.isEmpty then none
  else if value n.whole < indexLimit then some (value n.whole) else none

end Numeral

end PriceTaint
