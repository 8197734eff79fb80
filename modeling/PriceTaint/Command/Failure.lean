/-
Failures of commands, with their causes.

A failure is a message together with the causes behind it, the outermost first.
`inline` puts all of it on one line; `report` is the layout for the error stream,
where several causes are numbered and the further lines of a cause are indented
under its first.
-/
import PriceTaint.Command.Disk
import PriceTaint.Document
import PriceTaint.Text.Lines

set_option autoImplicit false

namespace PriceTaint

/-- A failure: what failed, and why. -/
structure Failure where
  message : String
  causes : List String
deriving DecidableEq, Repr

namespace Failure

/-- All on one line. -/
def inline (f : Failure) : String := String.intercalate ": " (f.message :: f.causes)

/-- A cause with its number, which is aligned to the right. -/
def numbered (n : Nat) (cause : String) : String :=
  let digits := toString n
  String.ofList (List.replicate (5 - digits.length) ' ') ++ digits ++ ": "
    ++ Text.hang "       " cause

/-- The list of causes. -/
def causeLines : List String → List String
  | [only] => ["    " ++ Text.hang "    " only]
  | causes => causes.zipIdx.map fun e => numbered e.2 e.1

/-- The text for the error stream. -/
def report (f : Failure) : String :=
  "Error: " ++ f.message
    ++ (if f.causes.isEmpty then "\n"
      else "\n\nCaused by:\n" ++ String.join ((causeLines f.causes).map (· ++ "\n")))

/-- What is said about malformed JSON. Where it goes wrong is not told. -/
def malformedJson : String := "<json error>"

/-- A document that could not be read. -/
def unreadDocument (path : String) (e : ReadError) : Failure :=
  ⟨"Failed to read file: " ++ path, [e.message]⟩

/-- A document that is not valid. -/
def invalidDocument (path : String) : LoadError → Failure
  | .malformed => ⟨"Invalid program: " ++ path, ["Failed to parse program document", malformedJson]⟩
  | .fault f => ⟨"Invalid program: " ++ path, [f.message]⟩

/-- A directory that could not be walked. -/
def unwalkedDirectory (path : String) (e : WalkError) : Failure :=
  ⟨"Failed to walk " ++ path, [e.message, e.cause.message]⟩

/-- Settings that could not be read. -/
def unreadSettings (path : String) (e : ReadError) : Failure :=
  ⟨"Failed to load config: " ++ path, ["failed to read config " ++ path, e.message]⟩

/-- Settings that are not valid. -/
def invalidSettings (path : String) : Failure :=
  ⟨"Failed to load config: " ++ path, ["invalid config " ++ path, malformedJson]⟩

end Failure

end PriceTaint
