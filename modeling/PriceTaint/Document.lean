/-
Program documents: a program together with its dependency edges, as a producer
ships them in one JSON text.

`parse` reads a document and checks it, so whatever it returns is well formed;
`render` writes the text that `parse` reads back.
-/
import PriceTaint.Influence.Graph
import PriceTaint.Json.Reader
import PriceTaint.Json.Writer
import PriceTaint.Program.Format

set_option autoImplicit false

namespace PriceTaint

open Json (Fields)

/-! ## Edges and graphs as JSON -/

namespace Edge

def fieldNames : List String := ["function", "variable", "depends_on"]

def toJson (e : Edge) : Json :=
  .object [
    ("function", e.scope.toJson),
    ("variable", e.target.toJson),
    ("depends_on", e.source.toJson)]

def ofJson? (v : Json) : Option Edge := do
  let fields ← v.fields? fieldNames
  return {
    scope := ← fields.required "function" Handle.ofJson?
    target := ← fields.required "variable" Handle.ofJson?
    source := ← fields.required "depends_on" Handle.ofJson? }

end Edge

namespace InfluenceGraph

/-- A graph is written as the list of its edges. -/
def toJson (g : InfluenceGraph) : Json := .ofList Edge.toJson g.toList

/-- Repeated edges collapse. -/
def ofJson? (v : Json) : Option InfluenceGraph := (v.list? Edge.ofJson?).map ofList

end InfluenceGraph

/-! ## Documents -/

/-- A program and its dependency edges. -/
structure Document where
  program : Program
  influence : InfluenceGraph

/-- Why a text is not a document. -/
inductive LoadError where
  /-- It is no JSON, or its JSON does not have the form of a document. -/
  | malformed
  /-- It describes an inconsistent program. -/
  | fault (f : Fault)
deriving DecidableEq, Repr

namespace Document

def fieldNames : List String := ["program", "dependencies"]

def toJson (d : Document) : Json :=
  .object [("program", d.program.toJson), ("dependencies", d.influence.toJson)]

def ofJson? (v : Json) : Option Document := do
  let fields ← v.fields? fieldNames
  return {
    program := ← fields.required "program" Program.ofJson?
    influence := ← fields.withDefault "dependencies" .empty InfluenceGraph.ofJson? }

/-- All faults, those of the program first. -/
def faults (d : Document) : List Fault := d.program.faults ++ d.influence.faults d.program

/-- Succeeds on well-formed documents, and otherwise gives the first fault. -/
def validate (d : Document) : Except Fault Unit := Fault.firstOf d.faults

/-- The text of a document. -/
def render (d : Document) : String := d.toJson.pretty

/-- Reads and checks a document. -/
def parse (text : String) : Except LoadError Document :=
  match (Json.parse? text).bind ofJson? with
  | none => .error .malformed
  | some d => match d.validate with
    | .ok _ => .ok d
    | .error f => .error (.fault f)

end Document

end PriceTaint
