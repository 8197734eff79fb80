/-
Which variables may influence which, inside one function.

An edge says that a variable is computed directly from another one in some
function, its scope. A graph holds its edges in the order of insertion, without
repetitions, next to a table from scope and variable to the direct sources, which
is what queries use. `insert` keeps the two in step.

`sourcesOf` goes through the table breadth first. Every round that goes on finds
at least one new variable, and every new variable is the source of some edge, so
as many rounds as there are edges find everything.
-/
import Std.Data.TreeMap
import PriceTaint.Program.Fault

set_option autoImplicit false

namespace PriceTaint

/-- The question that an analysis asks: may `candidate` be influenced by `source`
inside `scope`? -/
abbrev Influence := (candidate source : VariableId) → (scope : FunctionId) → Bool

/-- In `scope`, `target` is computed directly from `source`. -/
structure Edge where
  scope : FunctionId
  target : VariableId
  source : VariableId
deriving DecidableEq, Repr

/-- Orders the keys of the table: by scope, then by variable. -/
def Edge.compareKey : FunctionId × VariableId → FunctionId × VariableId → Ordering :=
  compareLex (compareOn fun k => k.1.index) (compareOn fun k => k.2.index)

/-- Edges without repetitions, with the direct sources of every variable. -/
structure InfluenceGraph where
  edges : Array Edge
  table : Std.TreeMap (FunctionId × VariableId) (List VariableId) Edge.compareKey

namespace InfluenceGraph

/-- The graph without edges. -/
def empty : InfluenceGraph := ⟨#[], ∅⟩

instance : Inhabited InfluenceGraph := ⟨empty⟩

/-- The direct sources of a variable, in the order of insertion. -/
def direct (g : InfluenceGraph) (scope : FunctionId) (v : VariableId) : List VariableId :=
  g.table.getD (scope, v) []

/-- Adds an edge, unless it is there already. -/
def insert (g : InfluenceGraph) (e : Edge) : InfluenceGraph :=
  let sources := g.direct e.scope e.target
  if e.source ∈ sources then g
  else ⟨g.edges.push e, g.table.insert (e.scope, e.target) (sources ++ [e.source])⟩

/-- The graph of a list of edges. -/
def ofList (edges : List Edge) : InfluenceGraph := edges.foldl insert empty

/-- The edges in the order of insertion. -/
def toList (g : InfluenceGraph) : List Edge := g.edges.toList

/-! ## Queries -/

/-- Sources of the frontier that have not been seen, each once. -/
def fresh (g : InfluenceGraph) (scope : FunctionId) (frontier seen : List VariableId) :
    List VariableId :=
  ((frontier.flatMap (g.direct scope)).filter fun v => !seen.contains v).eraseDups

/-- Up to `rounds` further rounds of the search. -/
def search (g : InfluenceGraph) (scope : FunctionId) :
    (rounds : Nat) → (frontier seen : List VariableId) → List VariableId
  | 0, _, seen => seen
  | rounds + 1, frontier, seen =>
    let found := g.fresh scope frontier seen
    if found.isEmpty then seen else g.search scope rounds found (seen ++ found)

/-- Every variable that `v` is computed from in `scope` over one or more edges. It
contains `v` itself only if `v` lies on a cycle. -/
def sourcesOf (g : InfluenceGraph) (v : VariableId) (scope : FunctionId) : List VariableId :=
  g.search scope g.edges.size [v] []

/-- A variable is influenced by itself and by everything it is computed from. -/
def influence (g : InfluenceGraph) : Influence := fun candidate source scope =>
  candidate == source || (g.sourcesOf candidate scope).contains source

/-! ## Faults -/

/-- The faults of an edge: its scope, its target, its source. -/
def edgeFaults (p : Program) (e : Edge) : List Fault :=
  (if p.holds e.scope then [] else [.danglingEdge e.scope .function e.scope.index])
    ++ [e.target, e.source].filterMap fun v =>
      if p.holds v then none else some (.danglingEdge e.scope .variable v.index)

/-- All faults of the edges with respect to a program. -/
def faults (g : InfluenceGraph) (p : Program) : List Fault := g.toList.flatMap (edgeFaults p)

/-- Succeeds if every edge stays inside the program. -/
def validate (g : InfluenceGraph) (p : Program) : Except Fault Unit := Fault.firstOf (g.faults p)

end InfluenceGraph

end PriceTaint
