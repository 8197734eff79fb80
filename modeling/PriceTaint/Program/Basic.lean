/-
Programs: contracts, their functions, and what the functions do.

The representation is that of a compiler's control-flow graph. A contract lists
the functions that can be called on it and, among them, those it declares itself.
A function lists its nodes in control-flow order and the variables it returns. A
node is one statement: the variables it reads and writes, the calls it makes, and
its source text. Calls and variables live in arenas of their own, so that several
nodes can refer to one.

A program need not be consistent. Every query below skips handles that point
nowhere, and the names of missing parts read `<unknown>`.
-/
import PriceTaint.Program.Handle

set_option autoImplicit false

namespace PriceTaint

/-! ## The parts -/

/-- A contract or interface. -/
structure Contract where
  name : String
  isInterface : Bool := false
  /-- Every function callable on the contract, inherited ones included. -/
  functions : List FunctionId := []
  /-- The functions that the contract itself declares. -/
  declared : List FunctionId := []
deriving DecidableEq, Repr

/-- What a function is. -/
inductive FunctionKind where
  | function
  | constructor
  | modifier
  | fallback
  | receive
deriving DecidableEq, Repr

/-- A function of a contract. -/
structure Function where
  name : String
  /-- The name with its parameter types, such as `balanceOf(address)`. -/
  signature : String
  kind : FunctionKind := .function
  contract : ContractId
  /-- The nodes in control-flow order. -/
  nodes : List NodeId := []
  /-- The declared return variables. -/
  returns : List VariableId := []
deriving DecidableEq, Repr

/-- Is the function a modifier? -/
def Function.isModifier (f : Function) : Bool := f.kind == .modifier

/-- The outermost expression of a node. -/
inductive Shape where
  | assignment
  | call
  | ret
  | other
  | none
deriving DecidableEq, Repr

/-- Something a node calls without a call expression of its own. -/
inductive InternalCall where
  | function (id : FunctionId)
  /-- A function built into the language, such as `balance(address)`. -/
  | builtin (name : String)
deriving DecidableEq, Repr

/-- An operation that a node was lowered to. -/
inductive Operation where
  | eventCall (name : String)
  | internalCall
  | highLevelCall
  | lowLevelCall
  | assignment
  | ret
  | other
deriving DecidableEq, Repr

/-- One statement of a function. -/
structure Node where
  owner : FunctionId
  shape : Shape := .none
  calls : List CallId := []
  internalCalls : List InternalCall := []
  written : List VariableId := []
  read : List VariableId := []
  willReturn : Bool := false
  text : String := ""
  operations : List Operation := []
deriving DecidableEq, Repr

/-- Does the node emit an event? -/
def Node.emitsEvent (n : Node) : Bool :=
  n.operations.any fun
    | .eventCall _ => true
    | _ => false

/-- What a resolved callee turned out to be. -/
inductive Target where
  | function (id : FunctionId)
  | modifier (id : FunctionId)
  | event (name : String)
  | builtin (name : String)
deriving DecidableEq, Repr

/-- The callee of a call. -/
inductive Callee where
  | resolved (target : Target)
  /-- `receiver.name(…)` without a known target. -/
  | member (name : String)
  | other
deriving DecidableEq, Repr

/-- What an argument is made of. -/
inductive Operand where
  /-- A bare variable. -/
  | variable (id : VariableId)
  /-- A conversion of a variable, or a member of it: `address(pair)`. -/
  | wrapped (id : VariableId)
  /-- Anything else. -/
  | computed
deriving DecidableEq, Repr

/-- An argument of a call. -/
structure Argument where
  text : String
  operand : Operand := .computed
deriving DecidableEq, Repr

/-- The variable that an argument is, if it is nothing more. -/
def Argument.bareVariable? (a : Argument) : Option VariableId :=
  match a.operand with
  | .variable id => some id
  | _ => none

/-- A call expression. -/
structure Call where
  callee : Callee
  arguments : List Argument := []
  text : String
deriving DecidableEq, Repr

/-- Where a variable lives. -/
inductive Storage where
  | state
  | local
deriving DecidableEq, Repr

/-- A variable. -/
structure Variable where
  name : String
  typeName : String := ""
  storage : Storage
deriving DecidableEq, Repr

/-- Is it a state variable? -/
def Variable.isState (v : Variable) : Bool := v.storage == .state

/-- A program: one arena for each kind of part. -/
structure Program where
  contracts : Array Contract := #[]
  functions : Array Function := #[]
  nodes : Array Node := #[]
  calls : Array Call := #[]
  vars : Array Variable := #[]
deriving DecidableEq, Repr

namespace Program

/-! ## Look-up -/

def contractAt? (p : Program) (id : ContractId) : Option Contract := p.contracts[id.index]?
def functionAt? (p : Program) (id : FunctionId) : Option Function := p.functions[id.index]?
def nodeAt? (p : Program) (id : NodeId) : Option Node := p.nodes[id.index]?
def callAt? (p : Program) (id : CallId) : Option Call := p.calls[id.index]?
def variableAt? (p : Program) (id : VariableId) : Option Variable := p.vars[id.index]?

/-- How many parts of a kind there are. -/
def count (p : Program) : Kind → Nat
  | .contract => p.contracts.size
  | .function => p.functions.size
  | .node => p.nodes.size
  | .call => p.calls.size
  | .variable => p.vars.size

/-- Does the handle point inside its arena? -/
def holds (p : Program) {kind : Kind} (h : Handle kind) : Bool := decide (h.index < p.count kind)

/-- All contracts, in order. -/
def contractIds (p : Program) : List ContractId := (List.range p.contracts.size).map Handle.mk

/-! ## Names and texts -/

/-- What stands for the name or text of a missing part. -/
def unknown : String := "<unknown>"

def functionName (p : Program) (id : FunctionId) : String := ((p.functionAt? id).map (·.name)).getD unknown
def variableName (p : Program) (id : VariableId) : String := ((p.variableAt? id).map (·.name)).getD unknown
def callText (p : Program) (id : CallId) : String := ((p.callAt? id).map (·.text)).getD unknown
def nodeText (p : Program) (id : NodeId) : String := ((p.nodeAt? id).map (·.text)).getD unknown

/-! ## The body of a function -/

/-- The nodes of a function in control-flow order. -/
def bodyOf (p : Program) (f : FunctionId) : List (NodeId × Node) :=
  match p.functionAt? f with
  | some function => function.nodes.filterMap fun id => (p.nodeAt? id).map fun node => (id, node)
  | none => []

/-- The calls that a function makes, in node order. -/
def callsOf (p : Program) (f : FunctionId) : List CallId :=
  (p.bodyOf f).flatMap fun entry => entry.2.calls

/-- The names of the functions that a contract declares. -/
def declaredNames (p : Program) (c : ContractId) : List String :=
  match p.contractAt? c with
  | some contract => contract.declared.filterMap fun id => (p.functionAt? id).map (·.name)
  | none => []

end Program

end PriceTaint
