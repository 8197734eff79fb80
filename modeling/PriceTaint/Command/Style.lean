/-
Colours of the terminal.

A style is a list of numbers for an escape sequence, emphasis before colour. When
colours are off, styled text is plain text.
-/
import PriceTaint.Finding.Grade

set_option autoImplicit false

namespace PriceTaint

/-- A style of text on the terminal. -/
structure Style where
  codes : List Nat
deriving DecidableEq, Repr

namespace Style

def strong : Style := ⟨[1]⟩
def faint : Style := ⟨[2]⟩
def heading : Style := ⟨[1, 96]⟩
def rule : Style := ⟨[96]⟩
def success : Style := ⟨[92]⟩
def strongSuccess : Style := ⟨[1, 92]⟩
def failure : Style := ⟨[91]⟩
def strongFailure : Style := ⟨[1, 91]⟩

/-- The style of the name of a severity. -/
def ofSeverity : Severity → Style
  | .critical => ⟨[1, 31]⟩
  | .high => ⟨[1, 91]⟩
  | .medium => ⟨[33]⟩
  | .low => ⟨[93]⟩
  | .informational => ⟨[34]⟩

/-- Text in a style, if colours are on. -/
def paint (style : Style) (color : Bool) (text : String) : String :=
  if color then
    "\x1b[" ++ String.intercalate ";" (style.codes.map toString) ++ "m" ++ text ++ "\x1b[0m"
  else text

end Style

end PriceTaint
