/-
Programs survive their JSON form.

For every kind of part, the writer and the reader are faithful to each other. The
only thing that can get lost on the way is a handle that no 64-bit word holds: a
reader accepts indices below `2^64` and no others. `WordSized` says of a part that
all handles in it are such words; it is what fits into the format, and what comes
out of it.
-/
import PriceTaint.Program.Format
import PriceTaint.Proofs.Json.Codec

set_option autoImplicit false

namespace PriceTaint

open Json (Faithful Anything Legible faithful_text faithful_bool)

/-! ## Handles -/

/-- The index of the handle is a 64-bit word. -/
def Handle.IsWord {kind : Kind} (h : Handle kind) : Prop := h.index < Numeral.indexLimit

theorem Handle.faithful {kind : Kind} :
    Faithful (@Handle.toJson kind) Handle.ofJson? Handle.IsWord 0 where
  reads {h} hword := by
    rw [ofJson?, toJson, Json.faithful_index.reads hword]
    rfl
  legible hword := Json.faithful_index.legible hword
  fits {v h} hv := by
    obtain ⟨n, hn, rfl⟩ := Option.map_eq_some_iff.mp hv
    exact Json.faithful_index.fits hn

/-- All handles of the list are words. -/
def Handle.AllWords {kind : Kind} (hs : List (Handle kind)) : Prop := ∀ h ∈ hs, h.IsWord

theorem Handle.faithful_list {kind : Kind} :
    Faithful (@Handle.listToJson kind) Handle.listOfJson? Handle.AllWords 1 :=
  Handle.faithful.list

theorem Handle.allWords_nil {kind : Kind} : Handle.AllWords ([] : List (Handle kind)) :=
  List.forall_mem_nil _

/-! ## Contracts and functions -/

structure Contract.WordSized (c : Contract) : Prop where
  functions : Handle.AllWords c.functions
  declared : Handle.AllWords c.declared

theorem Contract.faithful : Faithful Contract.toJson Contract.ofJson? Contract.WordSized 2 where
  reads {c} h := by
    obtain ⟨fields, hfields, hmembers⟩ :=
      Json.fields?_of_object c.toJson fieldNames rfl rfl (by decide)
    simp only [List.forall_mem_cons] at hmembers
    obtain ⟨hname, hinterface, hfunctions, hdeclared, -⟩ := hmembers
    simp only [ofJson?, hfields, Option.bind_eq_bind, Option.bind_some, Option.pure_def,
      faithful_text.reads_required hname trivial,
      faithful_bool.reads_withDefault hinterface trivial,
      Handle.faithful_list.reads_withDefault hfunctions h.functions,
      Handle.faithful_list.reads_withDefault hdeclared h.declared]
  legible {c} h := by
    refine .object ?_
    simp only [List.forall_mem_cons]
    exact ⟨.string 1 _, .bool 1 _, Handle.faithful_list.legible h.functions,
      Handle.faithful_list.legible h.declared, List.forall_mem_nil _⟩
  fits {v c} h := by
    simp only [ofJson?, Option.bind_eq_bind, Option.bind_eq_some_iff, Option.pure_def,
      Option.some.injEq] at h
    -- of the members, only those with handles in them say anything here
    obtain ⟨fields, -, name, -, isInterface, -, functions, hf, declared, hd, rfl⟩ := h
    exact ⟨Handle.faithful_list.fits_withDefault Handle.allWords_nil hf,
      Handle.faithful_list.fits_withDefault Handle.allWords_nil hd⟩

theorem FunctionKind.faithful : Faithful FunctionKind.toJson FunctionKind.ofJson? Anything 0 :=
  Json.faithful_choice fun kind => by cases kind <;> rfl

structure Function.WordSized (f : Function) : Prop where
  contract : f.contract.IsWord
  nodes : Handle.AllWords f.nodes
  returns : Handle.AllWords f.returns

theorem Function.faithful : Faithful Function.toJson Function.ofJson? Function.WordSized 2 where
  reads {f} h := by
    obtain ⟨fields, hfields, hmembers⟩ :=
      Json.fields?_of_object f.toJson fieldNames rfl rfl (by decide)
    simp only [List.forall_mem_cons] at hmembers
    obtain ⟨hname, hsignature, hkind, hcontract, hnodes, hreturns, -⟩ := hmembers
    simp only [ofJson?, hfields, Option.bind_eq_bind, Option.bind_some, Option.pure_def,
      faithful_text.reads_required hname trivial,
      faithful_text.reads_required hsignature trivial,
      FunctionKind.faithful.reads_withDefault hkind trivial,
      Handle.faithful.reads_required hcontract h.contract,
      Handle.faithful_list.reads_withDefault hnodes h.nodes,
      Handle.faithful_list.reads_withDefault hreturns h.returns]
  legible {f} h := by
    refine .object ?_
    simp only [List.forall_mem_cons]
    exact ⟨.string 1 _, .string 1 _, (FunctionKind.faithful.legible trivial).mono (by decide),
      (Handle.faithful.legible h.contract).mono (by decide), Handle.faithful_list.legible h.nodes,
      Handle.faithful_list.legible h.returns, List.forall_mem_nil _⟩
  fits {v f} h := by
    simp only [ofJson?, Option.bind_eq_bind, Option.bind_eq_some_iff, Option.pure_def,
      Option.some.injEq] at h
    obtain ⟨fields, -, name, -, signature, -, kind, -, contract, hc, nodes, hn, returns, hr,
      rfl⟩ := h
    exact ⟨Handle.faithful.fits_required hc,
      Handle.faithful_list.fits_withDefault Handle.allWords_nil hn,
      Handle.faithful_list.fits_withDefault Handle.allWords_nil hr⟩

/-! ## Nodes -/

theorem Shape.faithful : Faithful Shape.toJson Shape.ofJson? Anything 0 :=
  Json.faithful_choice fun shape => by cases shape <;> rfl

def InternalCall.WordSized : InternalCall → Prop
  | .function id => id.IsWord
  | .builtin _ => True

theorem InternalCall.faithful :
    Faithful InternalCall.toJson InternalCall.ofJson? InternalCall.WordSized 1 where
  reads {c} h := by
    cases c with
    | function id => rw [toJson, ofJson?, Handle.faithful.reads h, Option.map_some]
    | builtin name => rfl
  legible {c} h := by
    cases c with
    | function id => exact .object (List.forall_mem_singleton.mpr (Handle.faithful.legible h))
    | builtin name => exact .object (List.forall_mem_singleton.mpr (.string 0 name))
  fits {v c} h := by
    unfold ofJson? at h
    split at h
    · obtain ⟨id, hid, rfl⟩ := Option.map_eq_some_iff.mp h
      exact Handle.faithful.fits hid
    · obtain ⟨name, -, rfl⟩ := Option.map_eq_some_iff.mp h
      exact trivial
    · cases h

theorem Operation.faithful : Faithful Operation.toJson Operation.ofJson? Anything 1 where
  reads {op} _ := by
    cases op <;> rfl
  legible {op} _ := by
    cases op with
    | eventCall name =>
      refine .object ?_
      simp only [List.forall_mem_cons]
      exact ⟨.string 0 _, .string 0 name, List.forall_mem_nil _⟩
    | _ => exact .object (List.forall_mem_singleton.mpr (.string 0 _))
  fits _ := trivial

structure Node.WordSized (n : Node) : Prop where
  owner : n.owner.IsWord
  calls : Handle.AllWords n.calls
  internalCalls : ∀ c ∈ n.internalCalls, c.WordSized
  written : Handle.AllWords n.written
  read : Handle.AllWords n.read

theorem Node.faithful : Faithful Node.toJson Node.ofJson? Node.WordSized 3 where
  reads {n} h := by
    obtain ⟨fields, hfields, hmembers⟩ :=
      Json.fields?_of_object n.toJson fieldNames rfl rfl (by decide)
    simp only [List.forall_mem_cons] at hmembers
    obtain ⟨howner, hshape, hcalls, hinternal, hwritten, hread, hreturn, htext, hoperations,
      -⟩ := hmembers
    simp only [ofJson?, hfields, Option.bind_eq_bind, Option.bind_some, Option.pure_def,
      Handle.faithful.reads_required howner h.owner,
      Shape.faithful.reads_withDefault hshape trivial,
      Handle.faithful_list.reads_withDefault hcalls h.calls,
      InternalCall.faithful.list.reads_withDefault hinternal h.internalCalls,
      Handle.faithful_list.reads_withDefault hwritten h.written,
      Handle.faithful_list.reads_withDefault hread h.read,
      faithful_bool.reads_withDefault hreturn trivial,
      faithful_text.reads_withDefault htext trivial,
      Operation.faithful.list.reads_withDefault hoperations fun _ _ => trivial]
  legible {n} h := by
    refine .object ?_
    simp only [List.forall_mem_cons]
    exact ⟨(Handle.faithful.legible h.owner).mono (by decide),
      (Shape.faithful.legible trivial).mono (by decide),
      (Handle.faithful_list.legible h.calls).mono (by decide),
      InternalCall.faithful.list.legible h.internalCalls,
      (Handle.faithful_list.legible h.written).mono (by decide),
      (Handle.faithful_list.legible h.read).mono (by decide), .bool 2 _, .string 2 _,
      Operation.faithful.list.legible fun _ _ => trivial, List.forall_mem_nil _⟩
  fits {v n} h := by
    simp only [ofJson?, Option.bind_eq_bind, Option.bind_eq_some_iff, Option.pure_def,
      Option.some.injEq] at h
    obtain ⟨fields, -, owner, ho, shape, -, calls, hc, internalCalls, hi, written, hw, read, hr,
      willReturn, -, text, -, operations, -, rfl⟩ := h
    exact ⟨Handle.faithful.fits_required ho,
      Handle.faithful_list.fits_withDefault Handle.allWords_nil hc,
      InternalCall.faithful.list.fits_withDefault (List.forall_mem_nil _) hi,
      Handle.faithful_list.fits_withDefault Handle.allWords_nil hw,
      Handle.faithful_list.fits_withDefault Handle.allWords_nil hr⟩

/-! ## Calls -/

def Target.WordSized : Target → Prop
  | .function id => id.IsWord
  | .modifier id => id.IsWord
  | .event _ => True
  | .builtin _ => True

/-- A tag next to its content takes one bracket. -/
theorem legible_tagged {content : Json} (h : Legible 0 content) (tagName contentName tag : String) :
    Legible 1 (.object [(tagName, .string tag), (contentName, content)]) := by
  refine .object ?_
  simp only [List.forall_mem_cons]
  exact ⟨.string 0 tag, h, List.forall_mem_nil _⟩

theorem Target.faithful : Faithful Target.toJson Target.ofJson? Target.WordSized 1 where
  reads {t} h := by
    cases t with
    | function id =>
      rw [ofJson?, toJson, Json.tagged?_object (by decide)]
      exact congrArg (Option.map Target.function) (Handle.faithful.reads h)
    | modifier id =>
      rw [ofJson?, toJson, Json.tagged?_object (by decide)]
      exact congrArg (Option.map Target.modifier) (Handle.faithful.reads h)
    | event name => rfl
    | builtin name => rfl
  legible {t} h := by
    cases t with
    | function id => exact legible_tagged (Handle.faithful.legible h) _ _ _
    | modifier id => exact legible_tagged (Handle.faithful.legible h) _ _ _
    | event name => exact legible_tagged (.string 0 name) _ _ _
    | builtin name => exact legible_tagged (.string 0 name) _ _ _
  fits {v t} h := by
    obtain ⟨tagged, -, h⟩ := Option.bind_eq_some_iff.mp h
    split at h
    · obtain ⟨id, hid, rfl⟩ := Option.map_eq_some_iff.mp h
      exact Handle.faithful.fits hid
    · obtain ⟨id, hid, rfl⟩ := Option.map_eq_some_iff.mp h
      exact Handle.faithful.fits hid
    · obtain ⟨name, -, rfl⟩ := Option.map_eq_some_iff.mp h
      exact trivial
    · obtain ⟨name, -, rfl⟩ := Option.map_eq_some_iff.mp h
      exact trivial
    · cases h

def Callee.WordSized : Callee → Prop
  | .resolved target => target.WordSized
  | .member _ => True
  | .other => True

theorem Callee.faithful : Faithful Callee.toJson Callee.ofJson? Callee.WordSized 2 where
  reads {c} h := by
    cases c with
    | resolved target => rw [toJson, ofJson?, Target.faithful.reads h, Option.map_some]
    | member name => rfl
    | other => rfl
  legible {c} h := by
    cases c with
    | resolved target => exact .object (List.forall_mem_singleton.mpr (Target.faithful.legible h))
    | member name =>
      exact .object (List.forall_mem_singleton.mpr
        (.object (List.forall_mem_singleton.mpr (.string 0 name))))
    | other => exact .string 2 _
  fits {v c} h := by
    unfold ofJson? at h
    split at h
    · obtain ⟨target, htarget, rfl⟩ := Option.map_eq_some_iff.mp h
      exact Target.faithful.fits htarget
    · simp only [Option.bind_eq_bind, Option.bind_eq_some_iff, Option.pure_def,
        Option.some.injEq] at h
      obtain ⟨fields, -, name, -, rfl⟩ := h
      exact trivial
    · cases h
      exact trivial
    · cases h
      exact trivial
    · cases h

def Operand.WordSized : Operand → Prop
  | .variable id => id.IsWord
  | .wrapped id => id.IsWord
  | .computed => True

theorem Operand.faithful : Faithful Operand.toJson Operand.ofJson? Operand.WordSized 1 where
  reads {o} h := by
    match o, h with
    | .variable id, h =>
      rw [ofJson?, toJson, Json.tagged?_object (by decide)]
      exact congrArg (Option.map Operand.variable) (Handle.faithful.reads h)
    | .wrapped id, h =>
      rw [ofJson?, toJson, Json.tagged?_object (by decide)]
      exact congrArg (Option.map Operand.wrapped) (Handle.faithful.reads h)
    | .computed, _ => rfl
  legible {o} h := by
    match o, h with
    | .variable id, h => exact legible_tagged (Handle.faithful.legible h) _ _ _
    | .wrapped id, h => exact legible_tagged (Handle.faithful.legible h) _ _ _
    | .computed, _ => exact .object (List.forall_mem_singleton.mpr (.string 0 _))
  fits {v o} h := by
    obtain ⟨tagged, -, h⟩ := Option.bind_eq_some_iff.mp h
    split at h
    · obtain ⟨id, hid, rfl⟩ := Option.map_eq_some_iff.mp h
      exact Handle.faithful.fits hid
    · obtain ⟨id, hid, rfl⟩ := Option.map_eq_some_iff.mp h
      exact Handle.faithful.fits hid
    · cases h
      exact trivial
    · cases h
      exact trivial
    · cases h

def Argument.WordSized (a : Argument) : Prop := a.operand.WordSized

theorem Argument.faithful : Faithful Argument.toJson Argument.ofJson? Argument.WordSized 2 where
  reads {a} h := by
    obtain ⟨fields, hfields, hmembers⟩ :=
      Json.fields?_of_object a.toJson fieldNames rfl rfl (by decide)
    simp only [List.forall_mem_cons] at hmembers
    obtain ⟨htext, hoperand, -⟩ := hmembers
    simp only [ofJson?, hfields, Option.bind_eq_bind, Option.bind_some, Option.pure_def,
      faithful_text.reads_required htext trivial,
      Operand.faithful.reads_withDefault hoperand h]
  legible {a} h := by
    refine .object ?_
    simp only [List.forall_mem_cons]
    exact ⟨.string 1 _, Operand.faithful.legible h, List.forall_mem_nil _⟩
  fits {v a} h := by
    simp only [ofJson?, Option.bind_eq_bind, Option.bind_eq_some_iff, Option.pure_def,
      Option.some.injEq] at h
    obtain ⟨fields, -, text, -, operand, ho, rfl⟩ := h
    exact Operand.faithful.fits_withDefault (show Operand.WordSized .computed from trivial) ho

structure Call.WordSized (c : Call) : Prop where
  callee : c.callee.WordSized
  arguments : ∀ a ∈ c.arguments, a.WordSized

theorem Call.faithful : Faithful Call.toJson Call.ofJson? Call.WordSized 4 where
  reads {c} h := by
    obtain ⟨fields, hfields, hmembers⟩ :=
      Json.fields?_of_object c.toJson fieldNames rfl rfl (by decide)
    simp only [List.forall_mem_cons] at hmembers
    obtain ⟨hcallee, harguments, htext, -⟩ := hmembers
    simp only [ofJson?, hfields, Option.bind_eq_bind, Option.bind_some, Option.pure_def,
      Callee.faithful.reads_required hcallee h.callee,
      Argument.faithful.list.reads_withDefault harguments h.arguments,
      faithful_text.reads_required htext trivial]
  legible {c} h := by
    refine .object ?_
    simp only [List.forall_mem_cons]
    exact ⟨(Callee.faithful.legible h.callee).mono (by decide),
      Argument.faithful.list.legible h.arguments, .string 3 _, List.forall_mem_nil _⟩
  fits {v c} h := by
    simp only [ofJson?, Option.bind_eq_bind, Option.bind_eq_some_iff, Option.pure_def,
      Option.some.injEq] at h
    obtain ⟨fields, -, callee, hc, arguments, ha, text, -, rfl⟩ := h
    exact ⟨Callee.faithful.fits_required hc,
      Argument.faithful.list.fits_withDefault (List.forall_mem_nil _) ha⟩

/-! ## Variables -/

theorem Storage.faithful : Faithful Storage.toJson Storage.ofJson? Anything 0 :=
  Json.faithful_choice fun storage => by cases storage <;> rfl

theorem Variable.faithful : Faithful Variable.toJson Variable.ofJson? Anything 1 where
  reads {x} _ := by
    obtain ⟨fields, hfields, hmembers⟩ :=
      Json.fields?_of_object x.toJson fieldNames rfl rfl (by decide)
    simp only [List.forall_mem_cons] at hmembers
    obtain ⟨hname, htype, hstorage, -⟩ := hmembers
    simp only [ofJson?, hfields, Option.bind_eq_bind, Option.bind_some, Option.pure_def,
      faithful_text.reads_required hname trivial,
      faithful_text.reads_withDefault htype trivial,
      Storage.faithful.reads_required hstorage trivial]
  legible {x} _ := by
    refine .object ?_
    simp only [List.forall_mem_cons]
    exact ⟨.string 0 _, .string 0 _, Storage.faithful.legible trivial, List.forall_mem_nil _⟩
  fits _ := trivial

/-! ## Programs -/

/-- An arena is written as the list of its parts. -/
theorem faithful_arena {α : Type} {encode : α → Json} {decode : Json → Option α}
    {Fits : α → Prop} {height : Nat} (h : Faithful encode decode Fits height) :
    Faithful (fun parts : Array α => .ofList encode parts.toList) (Program.arena? decode)
      (fun parts => ∀ x ∈ parts.toList, Fits x) (height + 1) where
  reads hparts := by rw [Program.arena?, h.list.reads hparts, Option.map_some, Array.toArray_toList]
  legible hparts := h.list.legible hparts
  fits {v parts} hv := by
    obtain ⟨xs, hxs, rfl⟩ := Option.map_eq_some_iff.mp hv
    exact h.list.fits hxs

structure Program.WordSized (p : Program) : Prop where
  contracts : ∀ c ∈ p.contracts.toList, c.WordSized
  functions : ∀ f ∈ p.functions.toList, f.WordSized
  nodes : ∀ n ∈ p.nodes.toList, n.WordSized
  calls : ∀ c ∈ p.calls.toList, c.WordSized

/-- **Programs survive their JSON form**, as long as their handles are words. -/
theorem Program.faithful : Faithful Program.toJson Program.ofJson? Program.WordSized 6 where
  reads {p} h := by
    obtain ⟨fields, hfields, hmembers⟩ :=
      Json.fields?_of_object p.toJson fieldNames rfl rfl (by decide)
    simp only [List.forall_mem_cons] at hmembers
    obtain ⟨hcontracts, hfunctions, hnodes, hcalls, hvars, -⟩ := hmembers
    simp only [ofJson?, hfields, Option.bind_eq_bind, Option.bind_some, Option.pure_def,
      (faithful_arena Contract.faithful).reads_withDefault hcontracts h.contracts,
      (faithful_arena Function.faithful).reads_withDefault hfunctions h.functions,
      (faithful_arena Node.faithful).reads_withDefault hnodes h.nodes,
      (faithful_arena Call.faithful).reads_withDefault hcalls h.calls,
      (faithful_arena Variable.faithful).reads_withDefault hvars fun _ _ => trivial]
  legible {p} h := by
    refine .object ?_
    simp only [List.forall_mem_cons]
    exact ⟨(Contract.faithful.list.legible h.contracts).mono (by decide),
      (Function.faithful.list.legible h.functions).mono (by decide),
      (Node.faithful.list.legible h.nodes).mono (by decide), Call.faithful.list.legible h.calls,
      (Variable.faithful.list.legible fun _ _ => trivial).mono (by decide), List.forall_mem_nil _⟩
  fits {v p} h := by
    simp only [ofJson?, Option.bind_eq_bind, Option.bind_eq_some_iff, Option.pure_def,
      Option.some.injEq] at h
    obtain ⟨fields, -, contracts, hc, functions, hf, nodes, hn, calls, hk, vars, -, rfl⟩ := h
    exact ⟨(faithful_arena Contract.faithful).fits_withDefault (List.forall_mem_nil _) hc,
      (faithful_arena Function.faithful).fits_withDefault (List.forall_mem_nil _) hf,
      (faithful_arena Node.faithful).fits_withDefault (List.forall_mem_nil _) hn,
      (faithful_arena Call.faithful).fits_withDefault (List.forall_mem_nil _) hk⟩

end PriceTaint
