/-
Reading JSON values.

The parser keeps the open brackets on a stack of its own, so nesting is limited
by memory alone and the whole reading is one pass over the tokens. What is read
inside more than `maxNesting` brackets is marked unreadable when its bracket
closes: it can be skipped, and not used.
-/
import PriceTaint.Decimal.Score
import PriceTaint.Json.Token
import PriceTaint.Json.Value

set_option autoImplicit false

namespace PriceTaint.Json

/-- How many brackets may stand around a value that is to be used, its own
included. -/
def maxNesting : Nat := 127

/-- A bracket whose next element is being read: the elements before it in
reverse. A member remembers its name, absent if unreadable, and whether all names
before it were readable. -/
inductive Frame where
  | array (before : List Json)
  | member (before : List (String × Json)) (readable : Bool) (name : Option String)
deriving Repr

/-- What the parser waits for. -/
inductive Await where
  /-- A value. -/
  | value
  /-- A value, or the end of the array that has just been opened. -/
  | item
  /-- A member name, or also the end of the object that has just been opened. -/
  | name (before : List (String × Json)) (readable : Bool) (closable : Bool)
  /-- The colon after a member name. -/
  | colon (before : List (String × Json)) (readable : Bool) (name : Option String)
  /-- A comma, a closing bracket or the end of the text, after a value. -/
  | next (value : Json)
deriving Repr

/-- The parser: the brackets around the current place, how many there are, and
what has to come. -/
structure Parser where
  frames : List Frame
  depth : Nat
  await : Await
deriving Repr

namespace Parser

/-- The value of a closed bracket at the given depth. -/
def close (depth : Nat) (v : Json) : Json :=
  if depth ≤ maxNesting then v else .unreadable

/-- The value of an object whose names were readable or not. -/
def objectOf (members : List (String × Json)) (readable : Bool) : Json :=
  if readable then .object members.reverse else .unreadable

/-- Adds a member unless its name is unreadable. -/
def pushMember (before : List (String × Json)) (name : Option String) (v : Json) :
    List (String × Json) :=
  match name with
  | some n => (n, v) :: before
  | none => before

/-- The value of a token that is a value by itself. -/
def atom : Token → Option Json
  | .null => some .null
  | .bool b => some (.bool b)
  | .number n => some (if Score.inRange n then .number n else .unreadable)
  | .string (some s) => some (.string s)
  | .string none => some .unreadable
  | _ => none

/-- Reads the first token of a value. -/
def startValue (p : Parser) : Token → Option Parser
  | .openArray => some ⟨.array [] :: p.frames, p.depth + 1, .item⟩
  | .openObject => some ⟨p.frames, p.depth + 1, .name [] true true⟩
  | t => (atom t).map fun v => ⟨p.frames, p.depth, .next v⟩

/-- Reads one token. -/
def step (p : Parser) (t : Token) : Option Parser :=
  match p.await with
  | .value => p.startValue t
  | .item =>
    match t, p.frames with
    | .closeArray, .array _ :: frames =>
      some ⟨frames, p.depth - 1, .next (close p.depth (.array []))⟩
    | .closeArray, _ => none
    | t, _ => p.startValue t
  | .name before readable closable =>
    match t with
    | .string name => some ⟨p.frames, p.depth, .colon before readable name⟩
    | .closeObject =>
      if closable then
        some ⟨p.frames, p.depth - 1, .next (close p.depth (objectOf before readable))⟩
      else none
    | _ => none
  | .colon before readable name =>
    match t with
    | .colon => some ⟨.member before readable name :: p.frames, p.depth, .value⟩
    | _ => none
  | .next v =>
    match t, p.frames with
    | .comma, .array before :: frames => some ⟨.array (v :: before) :: frames, p.depth, .value⟩
    | .comma, .member before readable name :: frames =>
      some ⟨frames, p.depth, .name (pushMember before name v) (readable && name.isSome) false⟩
    | .closeArray, .array before :: frames =>
      some ⟨frames, p.depth - 1, .next (close p.depth (.array (v :: before).reverse))⟩
    | .closeObject, .member before readable name :: frames =>
      some ⟨frames, p.depth - 1,
        .next (close p.depth (objectOf (pushMember before name v) (readable && name.isSome)))⟩
    | _, _ => none

/-- Reads a run of tokens. -/
def run (p : Parser) : List Token → Option Parser
  | [] => some p
  | t :: ts => match p.step t with
    | some q => q.run ts
    | none => none

/-- The value at the end of the tokens. -/
def finish (p : Parser) : Option Json :=
  match p.frames, p.await with
  | [], .next v => some v
  | _, _ => none

end Parser

/-- The value that a list of tokens stands for. -/
def ofTokens? (tokens : List Token) : Option Json :=
  ((Parser.mk [] 0 .value).run tokens).bind Parser.finish

/-- Reads a text that consists of one JSON value. -/
def parse? (text : String) : Option Json :=
  (Token.scan text.toList).bind ofTokens?

end PriceTaint.Json
