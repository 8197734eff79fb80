/-
Flows from price reads to sinks.

A dependent flow joins a variable at a sink with a variable that a price read is
assigned to, when the first may be influenced by the second. A return flow is a
price read in a node that returns, and needs no such proof. Both are found
function by function and listed in a fixed order: by sink variable, then by node,
then by assigned variable, then by read.
-/
import PriceTaint.Influence.Graph
import PriceTaint.Taint.Reads

set_option autoImplicit false

namespace PriceTaint

/-- `risk`, a variable at a sink of `function`, depends on `tainted`, to which
`node` assigns the outcome of `read`. -/
structure DependentFlow where
  function : FunctionId
  risk : VariableId
  tainted : VariableId
  read : PriceRead
  node : NodeId
deriving DecidableEq, Repr

/-- `node` of `function` returns and makes `read`. -/
structure ReturnFlow where
  function : FunctionId
  read : PriceRead
  node : NodeId
deriving DecidableEq, Repr

/-- The flows of a function or of several. -/
structure Flows where
  dependent : List DependentFlow
  returned : List ReturnFlow
deriving DecidableEq, Repr

namespace Flows

def empty : Flows := ⟨[], []⟩

def isEmpty (f : Flows) : Bool := f.dependent.isEmpty && f.returned.isEmpty

def append (a b : Flows) : Flows := ⟨a.dependent ++ b.dependent, a.returned ++ b.returned⟩

/-- The flows of several functions, in order. -/
def concat (fs : List Flows) : Flows := fs.foldl append empty

end Flows

/-- An analysis: a program seen through a lens, with the influence between its
variables and the depth to which calls are followed. -/
structure Analysis where
  program : Program
  lens : Lens
  influence : Influence
  depth : Nat

namespace Analysis

/-! ## Sinks -/

/-- The variables passed to calls that move funds, as far as they exist. -/
def movedAmounts (p : Program) (f : FunctionId) : List VariableId :=
  (((p.callsOf f).filterMap p.callAt?).filter fun c => p.callMatches c .fundMovements).flatMap fun c =>
    (c.arguments.filterMap Argument.bareVariable?).filter fun v => (p.variableAt? v).isSome

/-- The variables read by returning nodes, then the declared return variables. -/
def returnedValues (p : Program) (f : FunctionId) : List VariableId :=
  (((p.bodyOf f).filter fun e => e.2.willReturn).flatMap fun e => e.2.read)
    ++ ((p.functionAt? f).map Function.returns).getD []

/-- The variables at the sinks of a function, each once, in the order in which they
are first seen. -/
def riskVariables (a : Analysis) (f : FunctionId) : List VariableId :=
  match a.lens.sink with
  | .movedAmounts => (movedAmounts a.program f).eraseDups
  | .returnedValues => (returnedValues a.program f).eraseDups

/-! ## Flows -/

/-- The footprint of a node. -/
def footprint (a : Analysis) (n : Node) : Footprint := a.lens.footprint a.program a.depth n

/-- The nodes of a function that assign the outcome of a price read. -/
def taintedNodes (a : Analysis) (f : FunctionId) : List (NodeId × Footprint) :=
  ((a.program.bodyOf f).map fun e => (e.1, a.footprint e.2)).filter fun e =>
    !e.2.written.isEmpty && !e.2.reads.isEmpty

/-- The dependent flows into one variable from one node. -/
def flowsInto (a : Analysis) (f : FunctionId) (risk : VariableId) (e : NodeId × Footprint) :
    List DependentFlow :=
  (e.2.written.filter fun v => a.influence risk v f).flatMap fun tainted =>
    e.2.reads.map fun read => ⟨f, risk, tainted, read, e.1⟩

/-- The dependent flows of a function. -/
def dependentFlows (a : Analysis) (f : FunctionId) : List DependentFlow :=
  let nodes := a.taintedNodes f
  (a.riskVariables f).flatMap fun risk => nodes.flatMap (a.flowsInto f risk)

/-- Does the read still go by one of the names of the lens? -/
def confirms (a : Analysis) : PriceRead → Bool
  | .builtin _ => true
  | .call id => (a.program.callAt? id).any fun c => a.program.callMatches c a.lens.reads

/-- Does the node return the outcome of its calls, rather than guard something? -/
def returnsCalls (n : Node) : Bool :=
  n.willReturn && !Text.contains n.text "require" && !n.calls.isEmpty

/-- The price reads of the returning nodes of a function. -/
def returnReads (a : Analysis) (f : FunctionId) : List (PriceRead × NodeId) :=
  ((a.program.bodyOf f).filter fun e => returnsCalls e.2).flatMap fun e =>
    ((a.footprint e.2).reads.filter a.confirms).map fun read => (read, e.1)

/-- The flows of a function. -/
def flows (a : Analysis) (f : FunctionId) : Flows where
  dependent := a.dependentFlows f
  returned :=
    if a.lens.needsInfluence then []
    else (a.returnReads f).map fun e => ⟨f, e.1, e.2⟩

/-- The flows of several functions, in order. -/
def flowsOf (a : Analysis) (fs : List FunctionId) : Flows := Flows.concat (fs.map a.flows)

end Analysis

end PriceTaint
