/-
One program inside another.

A program is found inside another one when every part of it stands there under a new
handle, with the handles that it holds renamed in the same way. The larger program may
hold anything besides, and the smaller one may be spread over it in any order. That
covers a program to which parts have been added, where no handle changes, and one whose
arenas have been rearranged.

Nothing is said about handles that dangle. In a closed program there are none, and so
what is found by following handles is the same in both programs, up to their names.
-/
import Mathlib.Data.List.Basic
import PriceTaint.Proofs.Program.References

set_option autoImplicit false

namespace PriceTaint

/-! ## Renaming handles -/

/-- New handles for old ones, kind by kind. Different handles stay different. -/
structure Renaming where
  on : {kind : Kind} → Handle kind → Handle kind
  injective : ∀ {kind : Kind} {a b : Handle kind}, on a = on b → a = b

/-- Every handle keeps its name. -/
def Renaming.identity : Renaming where
  on h := h
  injective h := h

section Parts

variable (ρ : Renaming)

def Contract.rename (c : Contract) : Contract :=
  { c with functions := c.functions.map ρ.on, declared := c.declared.map ρ.on }

def Function.rename (f : Function) : Function :=
  { f with
    contract := ρ.on f.contract
    nodes := f.nodes.map ρ.on
    returns := f.returns.map ρ.on }

def InternalCall.rename : InternalCall → InternalCall
  | .function id => .function (ρ.on id)
  | .builtin name => .builtin name

def Node.rename (n : Node) : Node :=
  { n with
    owner := ρ.on n.owner
    calls := n.calls.map ρ.on
    internalCalls := n.internalCalls.map (InternalCall.rename ρ)
    written := n.written.map ρ.on
    read := n.read.map ρ.on }

def Target.rename : Target → Target
  | .function id => .function (ρ.on id)
  | .modifier id => .modifier (ρ.on id)
  | .event name => .event name
  | .builtin name => .builtin name

def Callee.rename : Callee → Callee
  | .resolved target => .resolved (target.rename ρ)
  | .member name => .member name
  | .other => .other

def Operand.rename : Operand → Operand
  | .variable id => .variable (ρ.on id)
  | .wrapped id => .wrapped (ρ.on id)
  | .computed => .computed

def Argument.rename (a : Argument) : Argument := { a with operand := a.operand.rename ρ }

def Call.rename (c : Call) : Call :=
  { c with callee := c.callee.rename ρ, arguments := c.arguments.map (Argument.rename ρ) }

end Parts

/-! Keeping all names changes no part. -/

section Identity

theorem map_identity {kind : Kind} (hs : List (Handle kind)) : hs.map Renaming.identity.on = hs :=
  List.map_id hs

theorem Contract.rename_identity (c : Contract) : c.rename .identity = c := by
  simp only [rename, map_identity]

theorem Function.rename_identity (f : Function) : f.rename .identity = f := by
  simp only [rename, map_identity]
  rfl

theorem Node.rename_identity (n : Node) : n.rename .identity = n := by
  have hinternal : InternalCall.rename .identity = id := by
    funext internal
    cases internal <;> rfl
  simp only [rename, map_identity, hinternal, List.map_id]
  rfl

theorem Call.rename_identity (c : Call) : c.rename .identity = c := by
  have hcallee : c.callee.rename .identity = c.callee := by
    rcases c.callee with (_ | _ | _ | _) | _ | _ <;> rfl
  have hargument : Argument.rename .identity = id := by
    funext ⟨text, operand⟩
    cases operand <;> rfl
  simp only [rename, hcallee, hargument, List.map_id]

end Identity

namespace Program

/-! ## Embeddings -/

/-- Every part of `p` is a part of `p'`, with all handles renamed. -/
structure Embeds (ρ : Renaming) (p p' : Program) : Prop where
  contracts : ∀ {id c}, p.contractAt? id = some c → p'.contractAt? (ρ.on id) = some (c.rename ρ)
  functions : ∀ {id f}, p.functionAt? id = some f → p'.functionAt? (ρ.on id) = some (f.rename ρ)
  nodes : ∀ {id n}, p.nodeAt? id = some n → p'.nodeAt? (ρ.on id) = some (n.rename ρ)
  calls : ∀ {id c}, p.callAt? id = some c → p'.callAt? (ρ.on id) = some (c.rename ρ)
  vars : ∀ {id v}, p.variableAt? id = some v → p'.variableAt? (ρ.on id) = some v

section Lookup

variable {ρ : Renaming} {p p' : Program}

theorem Embeds.variableAt?_eq (h : p.Embeds ρ p') {id : VariableId} {v : Variable}
    (hv : p.variableAt? id = some v) : p'.variableAt? (ρ.on id) = p.variableAt? id := by
  rw [h.vars hv, hv]

theorem Embeds.functionName_eq (h : p.Embeds ρ p') {id : FunctionId} {f : Function}
    (hf : p.functionAt? id = some f) : p'.functionName (ρ.on id) = p.functionName id := by
  rw [functionName, functionName, h.functions hf, hf]
  rfl

theorem Embeds.variableName_eq (h : p.Embeds ρ p') {id : VariableId} {v : Variable}
    (hv : p.variableAt? id = some v) : p'.variableName (ρ.on id) = p.variableName id := by
  rw [variableName, variableName, h.variableAt?_eq hv]

theorem Embeds.callText_eq (h : p.Embeds ρ p') {id : CallId} {c : Call}
    (hc : p.callAt? id = some c) : p'.callText (ρ.on id) = p.callText id := by
  rw [callText, callText, h.calls hc, hc]
  rfl

theorem Embeds.nodeText_eq (h : p.Embeds ρ p') {id : NodeId} {n : Node}
    (hn : p.nodeAt? id = some n) : p'.nodeText (ρ.on id) = p.nodeText id := by
  rw [nodeText, nodeText, h.nodes hn, hn]
  rfl

/-- A function has the same body, under new names. -/
theorem Embeds.bodyOf_eq (h : p.Embeds ρ p') (hp : p.Closed) {f : FunctionId}
    {function : Function} (hf : p.functionAt? f = some function) :
    p'.bodyOf (ρ.on f) = (p.bodyOf f).map fun e => (ρ.on e.1, e.2.rename ρ) := by
  have hnodes : (function.rename ρ).nodes = function.nodes.map ρ.on := rfl
  rw [bodyOf, bodyOf, hf, h.functions hf]
  dsimp only
  rw [hnodes, List.filterMap_map, List.map_filterMap]
  refine List.filterMap_congr fun n hn => ?_
  obtain ⟨node, hnode, -⟩ := hp.listed hf hn
  rw [Function.comp_apply, hnode, h.nodes hnode]
  rfl

theorem Embeds.callsOf_eq (h : p.Embeds ρ p') (hp : p.Closed) {f : FunctionId}
    {function : Function} (hf : p.functionAt? f = some function) :
    p'.callsOf (ρ.on f) = (p.callsOf f).map ρ.on := by
  rw [callsOf, callsOf, h.bodyOf_eq hp hf, List.flatMap_map, List.map_flatMap]
  rfl

/-- A contract declares functions of the same names. -/
theorem Embeds.declaredNames_eq (h : p.Embeds ρ p') (hp : p.Closed) {id : ContractId}
    {contract : Contract} (hc : p.contractAt? id = some contract) :
    p'.declaredNames (ρ.on id) = p.declaredNames id := by
  have hdeclared : (contract.rename ρ).declared = contract.declared.map ρ.on := rfl
  rw [declaredNames, declaredNames, hc, h.contracts hc]
  dsimp only
  rw [hdeclared, List.filterMap_map]
  refine List.filterMap_congr fun f hf => ?_
  obtain ⟨function, hfun⟩ := hp.declared hc hf
  rw [Function.comp_apply, hfun, h.functions hfun]
  rfl

end Lookup

/-! ## Growing programs -/

/-- The arenas of `p` are the beginnings of those of `p'`. -/
structure IsPrefixOf (p p' : Program) : Prop where
  contracts : p.contracts.toList <+: p'.contracts.toList
  functions : p.functions.toList <+: p'.functions.toList
  nodes : p.nodes.toList <+: p'.nodes.toList
  calls : p.calls.toList <+: p'.calls.toList
  vars : p.vars.toList <+: p'.vars.toList

/-- What is appended to the arenas of a program leaves it in place. -/
theorem IsPrefixOf.embeds {p p' : Program} (h : p.IsPrefixOf p') :
    p.Embeds .identity p' where
  contracts hc := by
    rw [Contract.rename_identity]
    exact Array.getElem?_of_prefix h.contracts hc
  functions hf := by
    rw [Function.rename_identity]
    exact Array.getElem?_of_prefix h.functions hf
  nodes hn := by
    rw [Node.rename_identity]
    exact Array.getElem?_of_prefix h.nodes hn
  calls hc := by
    rw [Call.rename_identity]
    exact Array.getElem?_of_prefix h.calls hc
  vars hv := Array.getElem?_of_prefix h.vars hv

end Program

end PriceTaint
