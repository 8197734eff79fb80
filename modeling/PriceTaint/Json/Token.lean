/-
Tokens of JSON text.

The lexer goes through the text one character at a time and carries a mode:
between tokens, inside a word such as `true`, inside a numeral, or inside a
string. A numeral ends at the first character that cannot be part of one, and
that character is then read as the start of what follows. The text of a string
token is absent when the string contains half a surrogate pair; its syntax is
checked to the end all the same.
-/
import PriceTaint.Json.Numeral

set_option autoImplicit false

namespace PriceTaint

/-- A token of JSON text. -/
inductive Token where
  | openArray
  | closeArray
  | openObject
  | closeObject
  | comma
  | colon
  | null
  | bool (b : Bool)
  | number (n : Numeral)
  | string (text : Option String)
deriving Repr

namespace Token

/-! ## Strings -/

/-- A string under construction: its characters in reverse, the first half of a
surrogate pair that waits for its second, and whether a half was left alone. -/
structure Quoted where
  chars : List Char
  pending : Option Nat
  broken : Bool
deriving Repr

/-- The empty string under construction. -/
def Quoted.empty : Quoted := ⟨[], none, false⟩

/-- Adds a character. A waiting first half is thereby left alone. -/
def Quoted.push (q : Quoted) (c : Char) : Quoted :=
  ⟨c :: q.chars, none, q.broken || q.pending.isSome⟩

/-- Is the code unit the first half of a surrogate pair? -/
def isHighHalf (unit : Nat) : Bool := decide (0xD800 ≤ unit) && decide (unit ≤ 0xDBFF)

/-- Is the code unit the second half of a surrogate pair? -/
def isLowHalf (unit : Nat) : Bool := decide (0xDC00 ≤ unit) && decide (unit ≤ 0xDFFF)

/-- Adds the code unit of a `\u` escape. -/
def Quoted.pushUnit (q : Quoted) (unit : Nat) : Quoted :=
  match q.pending with
  | some high =>
    if isLowHalf unit then
      ⟨Char.ofNat (0x10000 + (high - 0xD800) * 0x400 + (unit - 0xDC00)) :: q.chars, none, q.broken⟩
    else ⟨q.chars, none, true⟩
  | none =>
    if isHighHalf unit then ⟨q.chars, some unit, q.broken⟩
    else if isLowHalf unit then ⟨q.chars, none, true⟩
    else q.push (Char.ofNat unit)

/-- The token of a finished string. -/
def Quoted.token (q : Quoted) : Token :=
  if q.broken || q.pending.isSome then .string none
  else .string (some (String.ofList q.chars.reverse))

/-- The character that a one-letter escape stands for. -/
def unescape : Char → Option Char
  | '"' => some '"'
  | '\\' => some '\\'
  | '/' => some '/'
  | 'b' => some '\x08'
  | 'f' => some '\x0c'
  | 'n' => some '\n'
  | 'r' => some '\r'
  | 't' => some '\t'
  | _ => none

/-- The value of a hexadecimal digit. -/
def hexValue (c : Char) : Option Nat :=
  if c.isDigit then some (c.toNat - '0'.toNat)
  else if 'a' ≤ c ∧ c ≤ 'f' then some (c.toNat - 'a'.toNat + 10)
  else if 'A' ≤ c ∧ c ≤ 'F' then some (c.toNat - 'A'.toNat + 10)
  else none

/-! ## The lexer -/

/-- Where in a token the lexer stands. -/
inductive Mode where
  /-- Between tokens. -/
  | blank
  /-- Inside a word whose remaining letters are still due. -/
  | word (due : List Char) (token : Token)
  /-- Inside a numeral, its characters in reverse. -/
  | numeral (chars : List Char)
  /-- Inside a string. -/
  | text (q : Quoted)
  /-- After a backslash. -/
  | escape (q : Quoted)
  /-- Inside a `\u` escape with the number of digits still due. -/
  | unit (q : Quoted) (due : Nat) (value : Nat)
deriving Repr

/-- The lexer: the finished tokens in reverse, and its mode. -/
structure Lexer where
  tokens : List Token
  mode : Mode
deriving Repr

/-- Is the character blank between tokens? -/
def isBlank (c : Char) : Bool := c == ' ' || c == '\t' || c == '\n' || c == '\r'

/-- Reads the first character of a token, or a blank. -/
def start (tokens : List Token) (c : Char) : Option Lexer :=
  if isBlank c then some ⟨tokens, .blank⟩
  else match c with
    | '[' => some ⟨.openArray :: tokens, .blank⟩
    | ']' => some ⟨.closeArray :: tokens, .blank⟩
    | '\x7b' => some ⟨.openObject :: tokens, .blank⟩
    | '\x7d' => some ⟨.closeObject :: tokens, .blank⟩
    | ',' => some ⟨.comma :: tokens, .blank⟩
    | ':' => some ⟨.colon :: tokens, .blank⟩
    | '"' => some ⟨tokens, .text .empty⟩
    | 'n' => some ⟨tokens, .word ['u', 'l', 'l'] .null⟩
    | 't' => some ⟨tokens, .word ['r', 'u', 'e'] (.bool true)⟩
    | 'f' => some ⟨tokens, .word ['a', 'l', 's', 'e'] (.bool false)⟩
    | c => if c == '-' || c.isDigit then some ⟨tokens, .numeral [c]⟩ else none

/-- Ends a numeral. -/
def endNumeral (tokens : List Token) (chars : List Char) : Option (List Token) :=
  (Numeral.ofText? chars.reverse).map fun n => .number n :: tokens

/-- Reads one character. -/
def Lexer.step (s : Lexer) (c : Char) : Option Lexer :=
  match s.mode with
  | .blank => start s.tokens c
  | .word [] _ => none
  | .word (d :: due) token =>
    if c != d then none
    else if due.isEmpty then some ⟨token :: s.tokens, .blank⟩
    else some ⟨s.tokens, .word due token⟩
  | .numeral chars =>
    if Numeral.isPart c then some ⟨s.tokens, .numeral (c :: chars)⟩
    else (endNumeral s.tokens chars).bind fun tokens => start tokens c
  | .text q =>
    if c == '"' then some ⟨q.token :: s.tokens, .blank⟩
    else if c == '\\' then some ⟨s.tokens, .escape q⟩
    else if c.toNat < 0x20 then none
    else some ⟨s.tokens, .text (q.push c)⟩
  | .escape q =>
    if c == 'u' then some ⟨s.tokens, .unit q 4 0⟩
    else (unescape c).map fun d => ⟨s.tokens, .text (q.push d)⟩
  | .unit q due value =>
    (hexValue c).map fun d =>
      if due ≤ 1 then ⟨s.tokens, .text (q.pushUnit (value * 16 + d))⟩
      else ⟨s.tokens, .unit q (due - 1) (value * 16 + d)⟩

/-- Reads a run of characters. -/
def Lexer.run (s : Lexer) : List Char → Option Lexer
  | [] => some s
  | c :: cs => match s.step c with
    | some t => t.run cs
    | none => none

/-- The tokens at the end of the text. -/
def Lexer.finish (s : Lexer) : Option (List Token) :=
  match s.mode with
  | .blank => some s.tokens.reverse
  | .numeral chars => (endNumeral s.tokens chars).map List.reverse
  | _ => none

/-- The tokens of a text. -/
def scan (text : List Char) : Option (List Token) :=
  ((Lexer.mk [] .blank).run text).bind Lexer.finish

end Token

end PriceTaint
