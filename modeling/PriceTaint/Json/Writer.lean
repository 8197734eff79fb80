/-
Writing JSON values.

There are two layouts. `compact` uses no blanks at all; `pretty` indents by two
blanks per level, puts every element on a line of its own, and leaves `[]` and
the empty object on one line. Both write characters as they are, except the
quote, the backslash and the control characters below U+0020.
-/
import PriceTaint.Json.Value

set_option autoImplicit false

namespace PriceTaint.Json

/-! ## Strings -/

/-- A hexadecimal digit, in lower case. -/
def hexDigit (n : Nat) : Char :=
  if n < 10 then Char.ofNat ('0'.toNat + n) else Char.ofNat ('a'.toNat + (n - 10))

/-- A character inside a string. -/
def escapeChar (c : Char) : List Char :=
  if c == '"' then ['\\', '"']
  else if c == '\\' then ['\\', '\\']
  else if c == '\n' then ['\\', 'n']
  else if c == '\t' then ['\\', 't']
  else if c == '\r' then ['\\', 'r']
  else if c == '\x08' then ['\\', 'b']
  else if c == '\x0c' then ['\\', 'f']
  else if c.toNat < 0x20 then
    ['\\', 'u', '0', '0', hexDigit (c.toNat / 16), hexDigit (c.toNat % 16)]
  else [c]

/-- A string between quotes. -/
def quote (s : String) : List Char :=
  '"' :: s.toList.flatMap escapeChar ++ ['"']

/-- A value without parts. Arrays and objects are written by the layouts below;
an unreadable value has no text of its own and stands as `null`. -/
def leaf : Json → List Char
  | .bool true => ['t', 'r', 'u', 'e']
  | .bool false => ['f', 'a', 'l', 's', 'e']
  | .number n => n.text
  | .string s => quote s
  | _ => ['n', 'u', 'l', 'l']

/-! ## Without blanks -/

mutual
/-- The characters of a value, without blanks. -/
def compactChars : Json → List Char
  | .array [] => ['[', ']']
  | .array (v :: vs) => '[' :: compactChars v ++ compactItems vs
  | .object [] => ['\x7b', '\x7d']
  | .object (m :: ms) => '\x7b' :: quote m.1 ++ ':' :: compactChars m.2 ++ compactMembers ms
  | v => leaf v

/-- Further elements and the end of an array. -/
def compactItems : List Json → List Char
  | [] => [']']
  | v :: vs => ',' :: compactChars v ++ compactItems vs

/-- Further members and the end of an object. -/
def compactMembers : List (String × Json) → List Char
  | [] => ['\x7d']
  | m :: ms => ',' :: quote m.1 ++ ':' :: compactChars m.2 ++ compactMembers ms
end

/-- The text of a value, without blanks. -/
def compact (v : Json) : String := String.ofList (compactChars v)

/-! ## Indented -/

/-- A new line at the given level. -/
def newline (level : Nat) : List Char := '\n' :: List.replicate (2 * level) ' '

mutual
/-- The characters of a value whose first line stands at the given level. -/
def prettyChars (level : Nat) : Json → List Char
  | .array [] => ['[', ']']
  | .array (v :: vs) =>
    '[' :: newline (level + 1) ++ prettyChars (level + 1) v ++ prettyItems level vs
  | .object [] => ['\x7b', '\x7d']
  | .object (m :: ms) =>
    '\x7b' :: newline (level + 1) ++ quote m.1 ++ ':' :: ' ' :: prettyChars (level + 1) m.2
      ++ prettyMembers level ms
  | v => leaf v

/-- Further elements and the end of an array. -/
def prettyItems (level : Nat) : List Json → List Char
  | [] => newline level ++ [']']
  | v :: vs => ',' :: newline (level + 1) ++ prettyChars (level + 1) v ++ prettyItems level vs

/-- Further members and the end of an object. -/
def prettyMembers (level : Nat) : List (String × Json) → List Char
  | [] => newline level ++ ['\x7d']
  | m :: ms =>
    ',' :: newline (level + 1) ++ quote m.1 ++ ':' :: ' ' :: prettyChars (level + 1) m.2
      ++ prettyMembers level ms
end

/-- The text of a value, indented by two blanks per level. -/
def pretty (v : Json) : String := String.ofList (prettyChars 0 v)

end PriceTaint.Json
