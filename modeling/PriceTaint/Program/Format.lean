/-
Programs as JSON.

Each kind of part has a writer `toJson`, which writes all members in a fixed
order, and a reader `ofJson?`, which accepts every record form of
`PriceTaint.Json.Record`. Members with a natural default may be left out when
reading: empty lists and texts, `false`, and the plain kind of a choice.
-/
import PriceTaint.Json.Record
import PriceTaint.Program.Basic

set_option autoImplicit false

namespace PriceTaint

open Json (Fields)

/-! ## Handles -/

def Handle.toJson {kind : Kind} (h : Handle kind) : Json := .ofNat h.index

def Handle.ofJson? {kind : Kind} (v : Json) : Option (Handle kind) := v.index?.map Handle.mk

/-- A list of handles. -/
def Handle.listToJson {kind : Kind} (hs : List (Handle kind)) : Json := .ofList Handle.toJson hs

def Handle.listOfJson? {kind : Kind} (v : Json) : Option (List (Handle kind)) :=
  v.list? Handle.ofJson?

/-! ## Contracts -/

namespace Contract

def fieldNames : List String := ["name", "is_interface", "functions", "functions_declared"]

def toJson (c : Contract) : Json :=
  .object [
    ("name", .string c.name),
    ("is_interface", .bool c.isInterface),
    ("functions", Handle.listToJson c.functions),
    ("functions_declared", Handle.listToJson c.declared)]

def ofJson? (v : Json) : Option Contract := do
  let fields ← v.fields? fieldNames
  return {
    name := ← fields.required "name" Json.text?
    isInterface := ← fields.withDefault "is_interface" false Json.bool?
    functions := ← fields.withDefault "functions" [] Handle.listOfJson?
    declared := ← fields.withDefault "functions_declared" [] Handle.listOfJson? }

end Contract

/-! ## Functions -/

namespace FunctionKind

def tag : FunctionKind → String
  | .function => "function"
  | .constructor => "constructor"
  | .modifier => "modifier"
  | .fallback => "fallback"
  | .receive => "receive"

def ofTag? : String → Option FunctionKind
  | "function" => some .function
  | "constructor" => some .constructor
  | "modifier" => some .modifier
  | "fallback" => some .fallback
  | "receive" => some .receive
  | _ => none

def toJson (k : FunctionKind) : Json := .string k.tag

def ofJson? (v : Json) : Option FunctionKind := v.choice? ofTag?

end FunctionKind

namespace Function

def fieldNames : List String := ["name", "full_name", "kind", "contract", "nodes", "returns"]

def toJson (f : Function) : Json :=
  .object [
    ("name", .string f.name),
    ("full_name", .string f.signature),
    ("kind", f.kind.toJson),
    ("contract", f.contract.toJson),
    ("nodes", Handle.listToJson f.nodes),
    ("returns", Handle.listToJson f.returns)]

def ofJson? (v : Json) : Option Function := do
  let fields ← v.fields? fieldNames
  return {
    name := ← fields.required "name" Json.text?
    signature := ← fields.required "full_name" Json.text?
    kind := ← fields.withDefault "kind" .function FunctionKind.ofJson?
    contract := ← fields.required "contract" Handle.ofJson?
    nodes := ← fields.withDefault "nodes" [] Handle.listOfJson?
    returns := ← fields.withDefault "returns" [] Handle.listOfJson? }

end Function

/-! ## Nodes -/

namespace Shape

def tag : Shape → String
  | .assignment => "assignment"
  | .call => "call"
  | .ret => "return"
  | .other => "other"
  | .none => "none"

def ofTag? : String → Option Shape
  | "assignment" => some .assignment
  | "call" => some .call
  | "return" => some .ret
  | "other" => some .other
  | "none" => some .none
  | _ => Option.none

def toJson (s : Shape) : Json := .string s.tag

def ofJson? (v : Json) : Option Shape := v.choice? ofTag?

end Shape

namespace InternalCall

def toJson : InternalCall → Json
  | .function id => .object [("function", id.toJson)]
  | .builtin name => .object [("builtin", .string name)]

/-- An object whose only member is the choice. -/
def ofJson? : Json → Option InternalCall
  | .object [("function", content)] => (Handle.ofJson? content).map .function
  | .object [("builtin", content)] => content.text?.map .builtin
  | _ => none

end InternalCall

namespace Operation

def tag : Operation → String
  | .eventCall _ => "event_call"
  | .internalCall => "internal_call"
  | .highLevelCall => "high_level_call"
  | .lowLevelCall => "low_level_call"
  | .assignment => "assignment"
  | .ret => "return"
  | .other => "other"

/-- The operations without content. -/
def ofTag? : String → Option Operation
  | "internal_call" => some .internalCall
  | "high_level_call" => some .highLevelCall
  | "low_level_call" => some .lowLevelCall
  | "assignment" => some .assignment
  | "return" => some .ret
  | "other" => some .other
  | _ => none

def toJson : Operation → Json
  | .eventCall name => .object [("op", .string "event_call"), ("name", .string name)]
  | op => .object [("op", .string op.tag)]

/-- The tag of an operation is one of its members, so nothing is known about the
others before all of them have been read: here even unknown members have to be
readable. In the array form the tag comes first and the fields follow. -/
def ofJson? : Json → Option Operation
  | .object members => do
    let fields ← Json.fields? ["op"] (.object members)
    let tag ← fields.required "op" Json.text?
    if !Json.membersReadable members then none
    else if tag = "event_call" then do
      let content ← Json.fields? ["name"] (.object members)
      return .eventCall (← content.required "name" Json.text?)
    else ofTag? tag
  | .array [.string "event_call", .string name] => some (.eventCall name)
  | .array [.string tag] => ofTag? tag
  | _ => none

end Operation

namespace Node

def fieldNames : List String :=
  ["function", "expression", "calls", "internal_calls", "variables_written", "variables_read",
    "will_return", "text", "irs"]

def toJson (n : Node) : Json :=
  .object [
    ("function", n.owner.toJson),
    ("expression", n.shape.toJson),
    ("calls", Handle.listToJson n.calls),
    ("internal_calls", .ofList InternalCall.toJson n.internalCalls),
    ("variables_written", Handle.listToJson n.written),
    ("variables_read", Handle.listToJson n.read),
    ("will_return", .bool n.willReturn),
    ("text", .string n.text),
    ("irs", .ofList Operation.toJson n.operations)]

def ofJson? (v : Json) : Option Node := do
  let fields ← v.fields? fieldNames
  return {
    owner := ← fields.required "function" Handle.ofJson?
    shape := ← fields.withDefault "expression" .none Shape.ofJson?
    calls := ← fields.withDefault "calls" [] Handle.listOfJson?
    internalCalls := ← fields.withDefault "internal_calls" [] (Json.list? InternalCall.ofJson?)
    written := ← fields.withDefault "variables_written" [] Handle.listOfJson?
    read := ← fields.withDefault "variables_read" [] Handle.listOfJson?
    willReturn := ← fields.withDefault "will_return" false Json.bool?
    text := ← fields.withDefault "text" "" Json.text?
    operations := ← fields.withDefault "irs" [] (Json.list? Operation.ofJson?) }

end Node

/-! ## Calls -/

namespace Target

def toJson : Target → Json
  | .function id => .object [("kind", .string "function"), ("target", id.toJson)]
  | .modifier id => .object [("kind", .string "modifier"), ("target", id.toJson)]
  | .event name => .object [("kind", .string "event"), ("target", .string name)]
  | .builtin name => .object [("kind", .string "builtin"), ("target", .string name)]

def ofJson? (v : Json) : Option Target := do
  match ← v.tagged? "kind" "target" with
  | ("function", some content) => (Handle.ofJson? content).map .function
  | ("modifier", some content) => (Handle.ofJson? content).map .modifier
  | ("event", some content) => content.text?.map .event
  | ("builtin", some content) => content.text?.map .builtin
  | _ => none

end Target

namespace Callee

def toJson : Callee → Json
  | .resolved target => .object [("resolved", target.toJson)]
  | .member name => .object [("member", .object [("member_name", .string name)])]
  | .other => .string "other"

/-- An object whose only member is the choice, or the bare tag of the choice that
has no content. -/
def ofJson? : Json → Option Callee
  | .object [("resolved", content)] => (Target.ofJson? content).map .resolved
  | .object [("member", content)] => do
    let fields ← content.fields? ["member_name"]
    return .member (← fields.required "member_name" Json.text?)
  | .object [("other", .null)] => some .other
  | .string "other" => some .other
  | _ => none

end Callee

namespace Operand

def toJson : Operand → Json
  | .variable id => .object [("kind", .string "variable"), ("variable", id.toJson)]
  | .wrapped id => .object [("kind", .string "wrapped"), ("variable", id.toJson)]
  | .computed => .object [("kind", .string "opaque")]

def ofJson? (v : Json) : Option Operand := do
  match ← v.tagged? "kind" "variable" with
  | ("variable", some content) => (Handle.ofJson? content).map .variable
  | ("wrapped", some content) => (Handle.ofJson? content).map .wrapped
  | ("opaque", none) => some .computed
  | ("opaque", some .null) => some .computed
  | _ => none

end Operand

namespace Argument

def fieldNames : List String := ["text", "expr"]

def toJson (a : Argument) : Json :=
  .object [("text", .string a.text), ("expr", a.operand.toJson)]

def ofJson? (v : Json) : Option Argument := do
  let fields ← v.fields? fieldNames
  return {
    text := ← fields.required "text" Json.text?
    operand := ← fields.withDefault "expr" .computed Operand.ofJson? }

end Argument

namespace Call

def fieldNames : List String := ["callee", "arguments", "text"]

def toJson (c : Call) : Json :=
  .object [
    ("callee", c.callee.toJson),
    ("arguments", .ofList Argument.toJson c.arguments),
    ("text", .string c.text)]

def ofJson? (v : Json) : Option Call := do
  let fields ← v.fields? fieldNames
  return {
    callee := ← fields.required "callee" Callee.ofJson?
    arguments := ← fields.withDefault "arguments" [] (Json.list? Argument.ofJson?)
    text := ← fields.required "text" Json.text? }

end Call

/-! ## Variables -/

namespace Storage

def tag : Storage → String
  | .state => "state"
  | .local => "local"

def ofTag? : String → Option Storage
  | "state" => some .state
  | "local" => some .local
  | _ => none

def toJson (s : Storage) : Json := .string s.tag

def ofJson? (v : Json) : Option Storage := v.choice? ofTag?

end Storage

namespace Variable

def fieldNames : List String := ["name", "type_name", "location"]

def toJson (v : Variable) : Json :=
  .object [
    ("name", .string v.name),
    ("type_name", .string v.typeName),
    ("location", v.storage.toJson)]

def ofJson? (v : Json) : Option Variable := do
  let fields ← v.fields? fieldNames
  return {
    name := ← fields.required "name" Json.text?
    typeName := ← fields.withDefault "type_name" "" Json.text?
    storage := ← fields.required "location" Storage.ofJson? }

end Variable

/-! ## Programs -/

namespace Program

def fieldNames : List String := ["contracts", "functions", "nodes", "calls", "variables"]

def toJson (p : Program) : Json :=
  .object [
    ("contracts", .ofList Contract.toJson p.contracts.toList),
    ("functions", .ofList Function.toJson p.functions.toList),
    ("nodes", .ofList Node.toJson p.nodes.toList),
    ("calls", .ofList Call.toJson p.calls.toList),
    ("variables", .ofList Variable.toJson p.vars.toList)]

/-- An arena, read element by element. -/
def arena? {α : Type} (decode : Json → Option α) (v : Json) : Option (Array α) :=
  (v.list? decode).map List.toArray

def ofJson? (v : Json) : Option Program := do
  let fields ← v.fields? fieldNames
  return {
    contracts := ← fields.withDefault "contracts" #[] (arena? Contract.ofJson?)
    functions := ← fields.withDefault "functions" #[] (arena? Function.ofJson?)
    nodes := ← fields.withDefault "nodes" #[] (arena? Node.ofJson?)
    calls := ← fields.withDefault "calls" #[] (arena? Call.ofJson?)
    vars := ← fields.withDefault "variables" #[] (arena? Variable.ofJson?) }

end Program

end PriceTaint
