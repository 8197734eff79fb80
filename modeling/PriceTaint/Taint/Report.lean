/-
The report on one contract.

A report is made from the flows of the contract's functions, dependent flows
before return flows. An entry is dropped if its node does not exist or emits an
event, and, unless every flow is wanted, if its node has an entry already. The
message is kept as fragments in which nodes are still symbolic; `render` puts in
their texts.
-/
import PriceTaint.Json.Value
import PriceTaint.Program.Format
import PriceTaint.Taint.Flow

set_option autoImplicit false

namespace PriceTaint

/-- A piece of a message. -/
inductive Fragment where
  | text (s : String)
  | node (id : NodeId)
deriving DecidableEq, Repr

/-- The text of a fragment. -/
def Fragment.render (p : Program) : Fragment → String
  | .text s => s
  | .node id => p.nodeText id

/-- An entry of a report. -/
inductive Entry where
  | dependent (flow : DependentFlow)
  | returned (flow : ReturnFlow)
deriving DecidableEq, Repr

namespace Entry

def node : Entry → NodeId
  | .dependent flow => flow.node
  | .returned flow => flow.node

def function : Entry → FunctionId
  | .dependent flow => flow.function
  | .returned flow => flow.function

def read : Entry → PriceRead
  | .dependent flow => flow.read
  | .returned flow => flow.read

/-- The variables that an entry is about: the one at risk, then the tainted one. -/
def involved : Entry → List VariableId
  | .dependent flow => [flow.risk, flow.tainted]
  | .returned _ => []

/-- What an entry says about its node. -/
def remark (p : Program) : Entry → List Fragment
  | .dependent flow => [
      .text " have potential price manipulated risk from ",
      .text (p.variableName flow.tainted),
      .text " and call ",
      .text (flow.read.render p),
      .text " which could influence variable:",
      .text (p.variableName flow.risk),
      .text "\n"]
  | .returned flow => [
      .text " have potential price manipulated risk in return call ",
      .text (flow.read.render p),
      .text " could influence return value\n"]

/-- The message of an entry. -/
def fragments (p : Program) (e : Entry) : List Fragment :=
  [.text "\t- In function ", .text (p.functionName e.function), .text "\n", .text "\t\t-- ",
    .node e.node] ++ e.remark p

end Entry

/-- All flows as entries, dependent flows first. -/
def Flows.entries (f : Flows) : List Entry :=
  f.dependent.map .dependent ++ f.returned.map .returned

/-- Can the node stand in a report? -/
def Program.isReportable (p : Program) (id : NodeId) : Bool :=
  (p.nodeAt? id).any fun n => !n.emitsEvent

/-- The report on a contract. -/
structure ContractReport where
  contract : ContractId
  contractName : String
  message : List Fragment
  entries : List Entry
deriving DecidableEq, Repr

namespace ContractReport

/-- The first line of every message. -/
def header : String := "Potential price manipulation risk:\n"

/-- The entries that are kept, given the nodes that have one already. -/
def keep (p : Program) (oncePerNode : Bool) : (seen : List NodeId) → List Entry → List Entry
  | _, [] => []
  | seen, e :: entries =>
    if (oncePerNode && seen.contains e.node) || !p.isReportable e.node then
      keep p oncePerNode seen entries
    else e :: keep p oncePerNode (e.node :: seen) entries

/-- The message of a list of entries. -/
def messageOf (p : Program) (entries : List Entry) : List Fragment :=
  .text header :: entries.flatMap (Entry.fragments p)

/-- The report on a contract, unless no flow is left. -/
def ofFlows? (p : Program) (id : ContractId) (flows : Flows) (oncePerNode : Bool) :
    Option ContractReport :=
  match keep p oncePerNode [] flows.entries with
  | [] => none
  | e :: entries => some {
      contract := id
      contractName := ((p.contractAt? id).map (·.name)).getD ""
      message := messageOf p (e :: entries)
      entries := e :: entries }

/-- The text of a report. -/
def render (r : ContractReport) (p : Program) : String :=
  String.join (r.message.map (Fragment.render p))

/-- The reported nodes, in order. -/
def nodes (r : ContractReport) : List NodeId := r.entries.map Entry.node

end ContractReport

/-! ## JSON -/

def PriceRead.toJson : PriceRead → Json
  | .call id => .object [("call", id.toJson)]
  | .builtin name => .object [("builtin", .string name)]

def Fragment.toJson : Fragment → Json
  | .text s => .object [("text", .string s)]
  | .node id => .object [("node", id.toJson)]

/-- The members of a dependent flow. -/
def DependentFlow.members (f : DependentFlow) : List (String × Json) :=
  [("function", f.function.toJson), ("risk_variable", f.risk.toJson),
    ("oracle_variable", f.tainted.toJson), ("oracle_call", f.read.toJson), ("node", f.node.toJson)]

/-- The members of a return flow. -/
def ReturnFlow.members (f : ReturnFlow) : List (String × Json) :=
  [("function", f.function.toJson), ("oracle_call", f.read.toJson), ("node", f.node.toJson)]

def Entry.toJson : Entry → Json
  | .dependent flow => .object (("mode", .string "dependent") :: flow.members)
  | .returned flow => .object (("mode", .string "return_call") :: flow.members)

def ContractReport.toJson (r : ContractReport) : Json :=
  .object [
    ("contract", r.contract.toJson),
    ("contract_name", .string r.contractName),
    ("info", .ofList Fragment.toJson r.message),
    ("entries", .ofList Entry.toJson r.entries)]

end PriceTaint
