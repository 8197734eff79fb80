/-
JSON values.

Members of an object keep the order and the repetitions of the text, because
what a repeated member means is for the reader of a record to decide. A value
can also be *unreadable*: its text is well formed and may be skipped, but it
stands for nothing that could be kept (a string with half a surrogate pair, a
numeral beyond the range of scores, brackets nested too deeply, or an object
with such a string as a member name).
-/
import PriceTaint.Json.Numeral

set_option autoImplicit false

namespace PriceTaint

/-- A JSON value. -/
inductive Json where
  | null
  | bool (b : Bool)
  | number (n : Numeral)
  | string (s : String)
  | array (items : List Json)
  | object (members : List (String × Json))
  | unreadable
deriving Inhabited, Repr

namespace Json

/-- A natural number as a value. -/
def ofNat (n : Nat) : Json := .number (.ofNat n)

/-- A list as an array. -/
def ofList {α : Type} (encode : α → Json) (xs : List α) : Json := .array (xs.map encode)

/-- A value or `null`. -/
def ofOption {α : Type} (encode : α → Json) : Option α → Json
  | some a => encode a
  | none => .null

mutual
/-- Is everything inside the value readable? -/
def isReadable : Json → Bool
  | .unreadable => false
  | .array items => allReadable items
  | .object members => membersReadable members
  | _ => true

/-- Are all values of a list readable? -/
def allReadable : List Json → Bool
  | [] => true
  | v :: vs => isReadable v && allReadable vs

/-- Are all member values readable? -/
def membersReadable : List (String × Json) → Bool
  | [] => true
  | m :: ms => isReadable m.2 && membersReadable ms
end

end Json

end PriceTaint
