/-
Reading records, choices and lists from JSON values.

A record is an object whose unknown members are ignored and whose known members
occur at most once, or an array of its fields in order. `fields?` brings both to
one form, the known members with their names, so that the reader of a record only
says which members are required and which have a default. A choice without
content is its tag as a string, or an object with the tag as its only member and
`null` as its value.
-/
import PriceTaint.Decimal.Score
import PriceTaint.Json.Value

set_option autoImplicit false

namespace PriceTaint.Json

/-! ## Simple values -/

/-- A string. -/
def text? : Json → Option String
  | .string s => some s
  | _ => none

/-- A truth value. -/
def bool? : Json → Option Bool
  | .bool b => some b
  | _ => none

/-- An index: a natural number below `2^64`. -/
def index? : Json → Option Nat
  | .number n => n.toIndex?
  | _ => none

/-- A score: any number. -/
def score? : Json → Option Score
  | .number n => Score.ofNumeral? n
  | _ => none

/-- A list, read element by element. -/
def list? {α : Type} (decode : Json → Option α) : Json → Option (List α)
  | .array items => items.mapM decode
  | _ => none

/-- `null`, or a value. -/
def nullable? {α : Type} (decode : Json → Option α) : Json → Option (Option α)
  | .null => some none
  | v => (decode v).map some

/-! ## Records -/

/-- The known fields of a record with their values. -/
abbrev Fields := List (String × Json)

/-- The known fields of an object or array. An object must not repeat a known
field; an array must not be longer than the record. -/
def fields? (names : List String) : Json → Option Fields
  | .object members =>
    let known := members.filter fun m => names.contains m.1
    if (known.map Prod.fst).Nodup then some known else none
  | .array items => if items.length ≤ names.length then some (names.zip items) else none
  | _ => none

namespace Fields

/-- A field that must be present. -/
def required {α : Type} (fields : Fields) (name : String) (decode : Json → Option α) : Option α :=
  (fields.lookup name).bind decode

/-- A field that may be left out, and then has the given value. -/
def withDefault {α : Type} (fields : Fields) (name : String) (default : α)
    (decode : Json → Option α) : Option α :=
  match fields.lookup name with
  | some v => decode v
  | none => some default

end Fields

/-! ## Choices -/

/-- The tag of a choice without content. -/
def tag? : Json → Option String
  | .string s => some s
  | .object [(name, .null)] => some name
  | _ => none

/-- A choice without content, given by the reading of its tags. -/
def choice? {α : Type} (ofTag? : String → Option α) (v : Json) : Option α :=
  v.tag?.bind ofTag?

/-- A choice written as a tag and its content side by side: an object with the
two members in either order, or the array of both. The content is absent only in
an object, and the tag of an array is always a string. -/
def tagged? (tagName contentName : String) : Json → Option (String × Option Json)
  | .object members => do
    let fields ← fields? [tagName, contentName] (.object members)
    let tag ← Fields.required fields tagName tag?
    return (tag, fields.lookup contentName)
  | .array [.string tag, content] => some (tag, some content)
  | _ => none

end PriceTaint.Json
