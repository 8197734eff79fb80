/-
Splitting text into lines.

A line ends with a line feed, and a carriage return right before the line feed
belongs to the ending. Endings are dropped. Text after the last line feed is a
line of its own, taken as it is, unless it is empty.
-/

set_option autoImplicit false

namespace PriceTaint.Text

/-- The characters of a finished line, given in reverse. -/
def endLine : List Char → List Char
  | '\r' :: cs => cs.reverse
  | cs => cs.reverse

/-- The lines of a text whose current line is given in reverse. -/
def linesFrom (current : List Char) : List Char → List (List Char)
  | [] => if current.isEmpty then [] else [current.reverse]
  | '\n' :: cs => endLine current :: linesFrom [] cs
  | c :: cs => linesFrom (c :: current) cs

/-- The lines of a text. -/
def lines (text : String) : List String := (linesFrom [] text.toList).map String.ofList

/-- Puts `margin` at the start of every line but the first. -/
def hang (margin : String) (text : String) : String :=
  String.ofList (text.toList.flatMap fun c => if c == '\n' then '\n' :: margin.toList else [c])

end PriceTaint.Text
