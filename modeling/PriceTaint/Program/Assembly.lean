/-
Putting a program together part by part.

Each operation appends one part to its arena and gives back the handle of the new
part; parts that list other parts are extended in passing. A handle that points
nowhere is accepted and has no effect on the part it should have extended. The
operations are also available as data, `BuildStep`, so that whole constructions
can be described and run.
-/
import PriceTaint.Program.Basic

set_option autoImplicit false

namespace PriceTaint

/-! ## Nodes -/

/-- One thing to be said about a node under construction. -/
inductive NodePart where
  /-- It assigns to the variables. -/
  | assigns (written : List VariableId)
  /-- It writes the variables without being an assignment. -/
  | writes (written : List VariableId)
  | reads (read : List VariableId)
  | call (id : CallId)
  | internal (call : InternalCall)
  | emits (event : String)
  | returns
  | shape (s : Shape)
deriving DecidableEq, Repr

namespace Node

/-- The shape of a node that had none so far. -/
def shapeOr (n : Node) (s : Shape) : Shape := if n.shape = .none then s else n.shape

/-- The operation that a call is lowered to. -/
def callOperation (p : Program) (id : CallId) : Operation :=
  match (p.callAt? id).map Call.callee with
  | some (.resolved _) => .internalCall
  | _ => .highLevelCall

/-- Adds one part. The program tells how calls are lowered. -/
def extend (p : Program) (n : Node) : NodePart → Node
  | .assigns written =>
    { n with
      shape := .assignment
      written := n.written ++ written
      operations := n.operations ++ [.assignment] }
  | .writes written => { n with written := n.written ++ written }
  | .reads read => { n with read := n.read ++ read }
  | .call id =>
    { n with
      shape := n.shapeOr .call
      calls := n.calls ++ [id]
      operations := n.operations ++ [callOperation p id] }
  | .internal call => { n with internalCalls := n.internalCalls ++ [call] }
  | .emits event => { n with operations := n.operations ++ [.eventCall event] }
  | .returns =>
    { n with
      willReturn := true
      shape := n.shapeOr .ret
      operations := n.operations ++ [.ret] }
  | .shape s => { n with shape := s }

/-- A node of a function, made of a text and parts. -/
def ofParts (p : Program) (owner : FunctionId) (text : String) (parts : List NodePart) : Node :=
  parts.foldl (extend p) { owner, text }

end Node

/-! ## Operations -/

namespace Program

/-- Adds a contract or interface without functions. -/
def addContract (p : Program) (name : String) (isInterface : Bool) : Program × ContractId :=
  ({ p with contracts := p.contracts.push { name, isInterface } }, ⟨p.contracts.size⟩)

/-- Adds a function and declares it in its contract. -/
def addFunction (p : Program) (contract : ContractId) (name signature : String)
    (kind : FunctionKind) : Program × FunctionId :=
  let id : FunctionId := ⟨p.functions.size⟩
  ({ p with
      functions := p.functions.push { name, signature, kind, contract }
      contracts := p.contracts.modify contract.index fun c =>
        { c with functions := c.functions ++ [id], declared := c.declared ++ [id] } }, id)

/-- Adds a modifier, which has no parameters. -/
def addModifier (p : Program) (contract : ContractId) (name : String) : Program × FunctionId :=
  p.addFunction contract name (name ++ "()") .modifier

/-- Makes a function callable on a contract without declaring it there. -/
def inherit (p : Program) (contract : ContractId) (function : FunctionId) : Program :=
  { p with
    contracts := p.contracts.modify contract.index fun c =>
      { c with functions := c.functions ++ [function] } }

/-- Adds a variable. -/
def addVariable (p : Program) (name typeName : String) (storage : Storage) : Program × VariableId :=
  ({ p with vars := p.vars.push { name, typeName, storage } }, ⟨p.vars.size⟩)

/-- Adds a return variable to a function. -/
def addReturn (p : Program) (function : FunctionId) (id : VariableId) : Program :=
  { p with
    functions := p.functions.modify function.index fun f => { f with returns := f.returns ++ [id] } }

/-- Adds a call. -/
def addCall (p : Program) (text : String) (callee : Callee) (arguments : List Argument) :
    Program × CallId :=
  ({ p with calls := p.calls.push { callee, arguments, text } }, ⟨p.calls.size⟩)

/-- Adds a node at the end of its function. -/
def addNode (p : Program) (n : Node) : Program × NodeId :=
  let id : NodeId := ⟨p.nodes.size⟩
  ({ p with
      nodes := p.nodes.push n
      functions := p.functions.modify n.owner.index fun f => { f with nodes := f.nodes ++ [id] } },
    id)

end Program

/-! ## Constructions as data -/

/-- One step of a construction. -/
inductive BuildStep where
  | contract (name : String) (isInterface : Bool)
  | function (contract : ContractId) (name signature : String) (kind : FunctionKind)
  | modifier (contract : ContractId) (name : String)
  | inherit (contract : ContractId) (function : FunctionId)
  | variable (name typeName : String) (storage : Storage)
  | returns (function : FunctionId) (id : VariableId)
  | call (text : String) (callee : Callee) (arguments : List Argument)
  | node (owner : FunctionId) (text : String) (parts : List NodePart)
deriving Repr

namespace BuildStep

/-- Runs a step. The second component is the index of the part that was added, if
one was. -/
def run (p : Program) : BuildStep → Program × Option Nat
  | .contract name isInterface =>
    let (q, id) := p.addContract name isInterface
    (q, some id.index)
  | .function owner name signature kind =>
    let (q, id) := p.addFunction owner name signature kind
    (q, some id.index)
  | .modifier owner name =>
    let (q, id) := p.addModifier owner name
    (q, some id.index)
  | .inherit heir f => (p.inherit heir f, none)
  | .variable name typeName storage =>
    let (q, id) := p.addVariable name typeName storage
    (q, some id.index)
  | .returns f id => (p.addReturn f id, none)
  | .call text callee arguments =>
    let (q, id) := p.addCall text callee arguments
    (q, some id.index)
  | .node owner text parts =>
    let (q, id) := p.addNode (Node.ofParts p owner text parts)
    (q, some id.index)

/-- Runs the steps of a construction one after the other. -/
def runAll (p : Program) : List BuildStep → Program × List (Option Nat)
  | [] => (p, [])
  | s :: steps =>
    let (q, id) := s.run p
    let (r, ids) := runAll q steps
    (r, id :: ids)

end BuildStep

end PriceTaint
