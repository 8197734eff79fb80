/-
What can be wrong with a program, and the list of all that is.

`Program.faults` lists every fault in the order in which parts are examined:
contracts, functions, nodes, calls. A program is well formed when the list is
empty, and the first fault is the one that is reported. Each fault carries what it
is about, so that its truth can be checked against the program: a dangling handle
names who holds it, and a disputed part names both parties.
-/
import PriceTaint.Program.Basic

set_option autoImplicit false

namespace PriceTaint

/-- The part of a program that holds a handle. -/
inductive Holder where
  | contract (id : ContractId) (name : String)
  | function (id : FunctionId) (name : String)
  | node (id : NodeId)
  | call (id : CallId) (text : String)
deriving DecidableEq, Repr

/-- A holder in messages. -/
def Holder.describe : Holder → String
  | .contract _ name => "contract `" ++ name ++ "`"
  | .function _ name => "function `" ++ name ++ "`"
  | .node id => "node #" ++ toString id.index
  | .call id text => "call #" ++ toString id.index ++ " `" ++ text ++ "`"

/-- Something wrong with a program or with the dependencies that come with it. -/
inductive Fault where
  /-- A handle points outside its arena. -/
  | dangling (holder : Holder) (kind : Kind) (index : Nat)
  /-- A function lists a node that belongs to another function. -/
  | nodeOwner (node : NodeId) (listedBy : FunctionId) (name : String) (owner : FunctionId)
  /-- A contract declares a function that belongs to another contract. -/
  | functionOwner (function : FunctionId) (name : String) (listedBy : ContractId)
      (listedByName : String) (owner : ContractId)
  /-- A dependency edge refers to something outside the program. -/
  | danglingEdge (scope : FunctionId) (kind : Kind) (index : Nat)
deriving DecidableEq, Repr

/-- The message of a fault. -/
def Fault.message : Fault → String
  | .dangling holder kind index =>
    holder.describe ++ " references missing " ++ kind.label ++ " #" ++ toString index
  | .nodeOwner node _ name owner =>
    "node #" ++ toString node.index ++ " is listed by function `" ++ name
      ++ "` but belongs to function #" ++ toString owner.index
  | .functionOwner _ name _ listedByName owner =>
    "function `" ++ name ++ "` is declared by contract `" ++ listedByName
      ++ "` but belongs to contract #" ++ toString owner.index
  | .danglingEdge scope kind index =>
    "dependency edge in function #" ++ toString scope.index ++ " references missing "
      ++ kind.label ++ " #" ++ toString index

/-- The first of a list of faults, as an outcome. -/
def Fault.firstOf : List Fault → Except Fault Unit
  | [] => .ok ()
  | fault :: _ => .error fault

namespace Program

/-- The fault of a handle that points outside its arena. -/
def danglingFault? (p : Program) (holder : Holder) {kind : Kind} (h : Handle kind) : Option Fault :=
  if p.holds h then none else some (.dangling holder kind h.index)

/-- The faults of a list of handles held by one part. -/
def danglingFaults (p : Program) (holder : Holder) {kind : Kind} (hs : List (Handle kind)) :
    List Fault :=
  hs.filterMap fun h => p.danglingFault? holder h

/-- The faults of a contract: handles first, then functions it wrongly declares. -/
def contractFaults (p : Program) (id : ContractId) (c : Contract) : List Fault :=
  p.danglingFaults (.contract id c.name) (c.functions ++ c.declared)
    ++ c.declared.filterMap fun f =>
      (p.functionAt? f).bind fun function =>
        if function.contract = id then none
        else some (.functionOwner f function.name id c.name function.contract)

/-- The fault of a node that a function lists. -/
def listedNodeFault? (p : Program) (id : FunctionId) (f : Function) (n : NodeId) : Option Fault :=
  match p.nodeAt? n with
  | none => some (.dangling (.function id f.name) .node n.index)
  | some node => if node.owner = id then none else some (.nodeOwner n id f.name node.owner)

/-- The faults of a function: its contract, its nodes, its return variables. -/
def functionFaults (p : Program) (id : FunctionId) (f : Function) : List Fault :=
  (p.danglingFault? (.function id f.name) f.contract).toList
    ++ f.nodes.filterMap (p.listedNodeFault? id f)
    ++ p.danglingFaults (.function id f.name) f.returns

/-- The functions among a node's internal calls. -/
def internalFunctions (n : Node) : List FunctionId :=
  n.internalCalls.filterMap fun
    | .function id => some id
    | .builtin _ => none

/-- The faults of a node: its owner, calls, internal calls and variables. -/
def nodeFaults (p : Program) (id : NodeId) (n : Node) : List Fault :=
  (p.danglingFault? (.node id) n.owner).toList
    ++ p.danglingFaults (.node id) n.calls
    ++ p.danglingFaults (.node id) (internalFunctions n)
    ++ p.danglingFaults (.node id) (n.written ++ n.read)

/-- The function that a callee refers to. -/
def calleeFunction? : Callee → Option FunctionId
  | .resolved (.function id) => some id
  | .resolved (.modifier id) => some id
  | _ => none

/-- The variable that an argument refers to. -/
def operandVariable? : Operand → Option VariableId
  | .variable id => some id
  | .wrapped id => some id
  | .computed => none

/-- The faults of a call: its target, then its arguments. -/
def callFaults (p : Program) (id : CallId) (c : Call) : List Fault :=
  p.danglingFaults (.call id c.text) (calleeFunction? c.callee).toList
    ++ p.danglingFaults (.call id c.text) (c.arguments.filterMap fun a => operandVariable? a.operand)

/-- All faults of a program, in the order in which they are looked for. -/
def faults (p : Program) : List Fault :=
  (p.contracts.toList.zipIdx.flatMap fun e => p.contractFaults ⟨e.2⟩ e.1)
    ++ (p.functions.toList.zipIdx.flatMap fun e => p.functionFaults ⟨e.2⟩ e.1)
    ++ (p.nodes.toList.zipIdx.flatMap fun e => p.nodeFaults ⟨e.2⟩ e.1)
    ++ (p.calls.toList.zipIdx.flatMap fun e => p.callFaults ⟨e.2⟩ e.1)

/-- Succeeds on well-formed programs, and otherwise gives the first fault. -/
def validate (p : Program) : Except Fault Unit := Fault.firstOf p.faults

end Program

end PriceTaint
