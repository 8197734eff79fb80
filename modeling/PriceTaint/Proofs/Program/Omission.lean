/-
Compact documents.

A producer may leave out of a document what has its default: empty arenas and lists, `false`,
empty texts and type names, the kind of an ordinary function, the shape of a node without an
expression, an argument that is no bare variable, an empty list of dependencies. The forms below
are the table of these defaults. They are stated as JSON, apart from the readers, and each reader
is shown to agree with its form: where members are left out that have their default, it reads the
part that was written, and where any other member is left out, it reads nothing.

Each part brings this about from its own members only, so a document follows from its program and
its graph, these from their lists, and so on down to single texts and handles.
-/
import PriceTaint.Proofs.Json.Omission
import PriceTaint.Proofs.Program.RoundTrip

set_option autoImplicit false

namespace PriceTaint

open Json (Anything Form Keeps Omission Tolerates keeps_object_iff tolerates_bool tolerates_text)

/-! ## Handles and tags -/

theorem Handle.tolerates {kind : Kind} :
    Tolerates .plain (@Handle.toJson kind) Handle.ofJson? Handle.IsWord :=
  .of_scalar Handle.faithful.toRecovers nofun

theorem Handle.tolerates_list {kind : Kind} :
    Tolerates (.list .plain) (@Handle.listToJson kind) Handle.listOfJson? Handle.AllWords :=
  Handle.tolerates.list

theorem FunctionKind.tolerates :
    Tolerates .plain FunctionKind.toJson FunctionKind.ofJson? Anything :=
  .of_scalar FunctionKind.faithful.toRecovers nofun

theorem Shape.tolerates : Tolerates .plain Shape.toJson Shape.ofJson? Anything :=
  .of_scalar Shape.faithful.toRecovers nofun

theorem Storage.tolerates : Tolerates .plain Storage.toJson Storage.ofJson? Anything :=
  .of_scalar Storage.faithful.toRecovers nofun

/-! ## Contracts and functions -/

namespace Contract

def form : Form := .record [
  ("name", none, .plain),
  ("is_interface", some (.bool false), .plain),
  ("functions", some (.array []), .list .plain),
  ("functions_declared", some (.array []), .list .plain)]

theorem tolerates : Tolerates form toJson ofJson? WordSized where
  reads {c o} h hallows := by
    obtain ⟨fields, hfields, hmembers⟩ := hallows.fields? fieldNames rfl rfl (by decide)
    simp only [List.forall_mem_cons] at hmembers
    obtain ⟨hname, hinterface, hfunctions, hdeclared, -⟩ := hmembers
    -- a name has to be there, and for the other members the form has the default of the reader
    simp only [ofJson?, hfields, Option.bind_eq_bind, Option.bind_some, Option.pure_def,
      tolerates_text.reads_required hname rfl trivial,
      tolerates_bool.reads_withDefault false hinterface rfl trivial trivial,
      Handle.tolerates_list.reads_withDefault [] hfunctions rfl Handle.allWords_nil h.functions,
      Handle.tolerates_list.reads_withDefault [] hdeclared rfl Handle.allWords_nil h.declared]
  spares {c o y} hread := by
    obtain ⟨fields, hfields, hmembers⟩ :=
      Json.fields?_without c.toJson fieldNames rfl rfl (by decide) o
    simp only [ofJson?, hfields, Option.bind_eq_bind, Option.bind_some, Option.bind_eq_some_iff]
      at hread
    obtain ⟨name, rname, isInterface, rinterface, functions, rfunctions, declared, rdeclared, -⟩ :=
      hread
    -- nothing is known about what was read, only that it could be read, member by member
    refine (Form.respects_object_iff _).mpr ?_
    simp only [List.forall_mem_cons] at hmembers ⊢
    obtain ⟨hname, hinterface, hfunctions, hdeclared, -⟩ := hmembers
    exact ⟨tolerates_text.spares_required hname rfl rname,
      tolerates_bool.spares_withDefault hinterface rfl rinterface,
      Handle.tolerates_list.spares_withDefault hfunctions rfl rfunctions,
      Handle.tolerates_list.spares_withDefault hdeclared rfl rdeclared, List.forall_mem_nil _⟩

end Contract

namespace Function

def form : Form := .record [
  ("name", none, .plain),
  ("full_name", none, .plain),
  ("kind", some (.string "function"), .plain),
  ("contract", none, .plain),
  ("nodes", some (.array []), .list .plain),
  ("returns", some (.array []), .list .plain)]

theorem tolerates : Tolerates form toJson ofJson? WordSized where
  reads {f o} h hallows := by
    obtain ⟨fields, hfields, hmembers⟩ := hallows.fields? fieldNames rfl rfl (by decide)
    simp only [List.forall_mem_cons] at hmembers
    obtain ⟨hname, hsignature, hkind, hcontract, hnodes, hreturns, -⟩ := hmembers
    simp only [ofJson?, hfields, Option.bind_eq_bind, Option.bind_some, Option.pure_def,
      tolerates_text.reads_required hname rfl trivial,
      tolerates_text.reads_required hsignature rfl trivial,
      FunctionKind.tolerates.reads_withDefault .function hkind rfl trivial trivial,
      Handle.tolerates.reads_required hcontract rfl h.contract,
      Handle.tolerates_list.reads_withDefault [] hnodes rfl Handle.allWords_nil h.nodes,
      Handle.tolerates_list.reads_withDefault [] hreturns rfl Handle.allWords_nil h.returns]
  spares {f o y} hread := by
    obtain ⟨fields, hfields, hmembers⟩ :=
      Json.fields?_without f.toJson fieldNames rfl rfl (by decide) o
    simp only [ofJson?, hfields, Option.bind_eq_bind, Option.bind_some, Option.bind_eq_some_iff]
      at hread
    obtain ⟨name, rname, signature, rsignature, kind, rkind, contract, rcontract, nodes, rnodes,
      returns, rreturns, -⟩ := hread
    refine (Form.respects_object_iff _).mpr ?_
    simp only [List.forall_mem_cons] at hmembers ⊢
    obtain ⟨hname, hsignature, hkind, hcontract, hnodes, hreturns, -⟩ := hmembers
    exact ⟨tolerates_text.spares_required hname rfl rname,
      tolerates_text.spares_required hsignature rfl rsignature,
      FunctionKind.tolerates.spares_withDefault hkind rfl rkind,
      Handle.tolerates.spares_required hcontract rfl rcontract,
      Handle.tolerates_list.spares_withDefault hnodes rfl rnodes,
      Handle.tolerates_list.spares_withDefault hreturns rfl rreturns, List.forall_mem_nil _⟩

end Function

/-! ## Nodes -/

theorem InternalCall.keeps {c y : InternalCall} {o : Omission}
    (h : ofJson? (c.toJson.without o) = some y) : Keeps o c.toJson := by
  cases c with
  | function id =>
    have hstays := (Json.stays_of_single ofJson? rfl h).1
    exact (keeps_object_iff _).mpr (List.forall_mem_singleton.mpr ⟨hstays, nofun⟩)
  | builtin name =>
    have hstays := (Json.stays_of_single ofJson? rfl h).1
    exact (keeps_object_iff _).mpr (List.forall_mem_singleton.mpr ⟨hstays, nofun⟩)

theorem InternalCall.tolerates :
    Tolerates .plain InternalCall.toJson InternalCall.ofJson? InternalCall.WordSized :=
  .of_plain InternalCall.faithful.toRecovers keeps

theorem Operation.keeps {op y : Operation} {o : Omission}
    (h : ofJson? (op.toJson.without o) = some y) : Keeps o op.toJson := by
  cases op with
  | eventCall name =>
    -- without either of its two members an event call is no operation
    have hstays : o [] "op" = false ∧ o [] "name" = false := by
      rw [toJson, Json.without, Json.membersWithout, Json.membersWithout, Json.membersWithout] at h
      cases hop : o [] "op" <;> cases hname : o [] "name" <;> rw [hop, hname] at h
      · exact ⟨rfl, rfl⟩
      · cases h
      · cases h
      · cases h
    refine (keeps_object_iff _).mpr ?_
    simp only [List.forall_mem_cons]
    exact ⟨⟨hstays.1, nofun⟩, ⟨hstays.2, nofun⟩, List.forall_mem_nil _⟩
  | _ =>
    have hstays := (Json.stays_of_single ofJson? rfl h).1
    exact (keeps_object_iff _).mpr (List.forall_mem_singleton.mpr ⟨hstays, nofun⟩)

theorem Operation.tolerates : Tolerates .plain Operation.toJson Operation.ofJson? Anything :=
  .of_plain Operation.faithful.toRecovers keeps

namespace Node

def form : Form := .record [
  ("function", none, .plain),
  ("expression", some (.string "none"), .plain),
  ("calls", some (.array []), .list .plain),
  ("internal_calls", some (.array []), .list .plain),
  ("variables_written", some (.array []), .list .plain),
  ("variables_read", some (.array []), .list .plain),
  ("will_return", some (.bool false), .plain),
  ("text", some (.string ""), .plain),
  ("irs", some (.array []), .list .plain)]

theorem tolerates : Tolerates form toJson ofJson? WordSized where
  reads {n o} h hallows := by
    obtain ⟨fields, hfields, hmembers⟩ := hallows.fields? fieldNames rfl rfl (by decide)
    simp only [List.forall_mem_cons] at hmembers
    obtain ⟨howner, hshape, hcalls, hinternal, hwritten, hread, hreturn, htext, hoperations,
      -⟩ := hmembers
    simp only [ofJson?, hfields, Option.bind_eq_bind, Option.bind_some, Option.pure_def,
      Handle.tolerates.reads_required howner rfl h.owner,
      Shape.tolerates.reads_withDefault .none hshape rfl trivial trivial,
      Handle.tolerates_list.reads_withDefault [] hcalls rfl Handle.allWords_nil h.calls,
      InternalCall.tolerates.list.reads_withDefault [] hinternal rfl (List.forall_mem_nil _)
        h.internalCalls,
      Handle.tolerates_list.reads_withDefault [] hwritten rfl Handle.allWords_nil h.written,
      Handle.tolerates_list.reads_withDefault [] hread rfl Handle.allWords_nil h.read,
      tolerates_bool.reads_withDefault false hreturn rfl trivial trivial,
      tolerates_text.reads_withDefault "" htext rfl trivial trivial,
      Operation.tolerates.list.reads_withDefault [] hoperations rfl (List.forall_mem_nil _)
        fun _ _ => trivial]
  spares {n o y} hread := by
    obtain ⟨fields, hfields, hmembers⟩ :=
      Json.fields?_without n.toJson fieldNames rfl rfl (by decide) o
    simp only [ofJson?, hfields, Option.bind_eq_bind, Option.bind_some, Option.bind_eq_some_iff]
      at hread
    obtain ⟨owner, rowner, shape, rshape, calls, rcalls, internalCalls, rinternal, written,
      rwritten, read, rread, willReturn, rreturn, text, rtext, operations, roperations, -⟩ := hread
    refine (Form.respects_object_iff _).mpr ?_
    simp only [List.forall_mem_cons] at hmembers ⊢
    obtain ⟨howner, hshape, hcalls, hinternal, hwritten, hread, hreturn, htext, hoperations,
      -⟩ := hmembers
    exact ⟨Handle.tolerates.spares_required howner rfl rowner,
      Shape.tolerates.spares_withDefault hshape rfl rshape,
      Handle.tolerates_list.spares_withDefault hcalls rfl rcalls,
      InternalCall.tolerates.list.spares_withDefault hinternal rfl rinternal,
      Handle.tolerates_list.spares_withDefault hwritten rfl rwritten,
      Handle.tolerates_list.spares_withDefault hread rfl rread,
      tolerates_bool.spares_withDefault hreturn rfl rreturn,
      tolerates_text.spares_withDefault htext rfl rtext,
      Operation.tolerates.list.spares_withDefault hoperations rfl roperations,
      List.forall_mem_nil _⟩

end Node

/-! ## Calls -/

theorem Target.keeps {t y : Target} {o : Omission} (h : ofJson? (t.toJson.without o) = some y) :
    Keeps o t.toJson := by
  cases t with
  | function id => exact Json.keeps_of_tagged? h (by decide) rfl nofun
  | modifier id => exact Json.keeps_of_tagged? h (by decide) rfl nofun
  | event name => exact Json.keeps_of_tagged? h (by decide) rfl nofun
  | builtin name => exact Json.keeps_of_tagged? h (by decide) rfl nofun

theorem Callee.keeps {c y : Callee} {o : Omission} (h : ofJson? (c.toJson.without o) = some y) :
    Keeps o c.toJson := by
  cases c with
  | resolved target =>
    obtain ⟨hstays, hread⟩ := Json.stays_of_single ofJson? rfl h
    obtain ⟨found, hfound, -⟩ := Option.map_eq_some_iff.mp hread
    exact (keeps_object_iff _).mpr (List.forall_mem_singleton.mpr ⟨hstays, Target.keeps hfound⟩)
  | member name =>
    obtain ⟨hstays, hread⟩ := Json.stays_of_single ofJson? rfl h
    have hinside :=
      (Json.stays_of_single (fun v => ofJson? (.object [("member", v)])) rfl hread).1
    have hname : Keeps (o.inside (.member "member")) (.object [("member_name", .string name)]) :=
      (keeps_object_iff _).mpr (List.forall_mem_singleton.mpr ⟨hinside, nofun⟩)
    exact (keeps_object_iff _).mpr (List.forall_mem_singleton.mpr ⟨hstays, hname⟩)
  | other => exact nofun

theorem Callee.tolerates : Tolerates .plain Callee.toJson Callee.ofJson? Callee.WordSized :=
  .of_plain Callee.faithful.toRecovers keeps

theorem Operand.keeps {e y : Operand} {o : Omission} (h : ofJson? (e.toJson.without o) = some y) :
    Keeps o e.toJson := by
  match e, h with
  | .variable id, h => exact Json.keeps_of_tagged? h (by decide) rfl nofun
  | .wrapped id, h => exact Json.keeps_of_tagged? h (by decide) rfl nofun
  | .computed, h =>
    have hstays := (Json.stays_of_single ofJson? rfl h).1
    exact (keeps_object_iff _).mpr (List.forall_mem_singleton.mpr ⟨hstays, nofun⟩)

theorem Operand.tolerates : Tolerates .plain Operand.toJson Operand.ofJson? Operand.WordSized :=
  .of_plain Operand.faithful.toRecovers keeps

namespace Argument

def form : Form := .record [
  ("text", none, .plain),
  ("expr", some (.object [("kind", .string "opaque")]), .plain)]

theorem tolerates : Tolerates form toJson ofJson? WordSized where
  reads {a o} h hallows := by
    obtain ⟨fields, hfields, hmembers⟩ := hallows.fields? fieldNames rfl rfl (by decide)
    simp only [List.forall_mem_cons] at hmembers
    obtain ⟨htext, hoperand, -⟩ := hmembers
    have hcomputed : Operand.WordSized .computed := trivial
    simp only [ofJson?, hfields, Option.bind_eq_bind, Option.bind_some, Option.pure_def,
      tolerates_text.reads_required htext rfl trivial,
      Operand.tolerates.reads_withDefault .computed hoperand rfl hcomputed h]
  spares {a o y} hread := by
    obtain ⟨fields, hfields, hmembers⟩ :=
      Json.fields?_without a.toJson fieldNames rfl rfl (by decide) o
    simp only [ofJson?, hfields, Option.bind_eq_bind, Option.bind_some, Option.bind_eq_some_iff]
      at hread
    obtain ⟨text, rtext, operand, roperand, -⟩ := hread
    refine (Form.respects_object_iff _).mpr ?_
    simp only [List.forall_mem_cons] at hmembers ⊢
    obtain ⟨htext, hoperand, -⟩ := hmembers
    exact ⟨tolerates_text.spares_required htext rfl rtext,
      Operand.tolerates.spares_withDefault hoperand rfl roperand, List.forall_mem_nil _⟩

end Argument

namespace Call

def form : Form := .record [
  ("callee", none, .plain),
  ("arguments", some (.array []), .list Argument.form),
  ("text", none, .plain)]

theorem tolerates : Tolerates form toJson ofJson? WordSized where
  reads {c o} h hallows := by
    obtain ⟨fields, hfields, hmembers⟩ := hallows.fields? fieldNames rfl rfl (by decide)
    simp only [List.forall_mem_cons] at hmembers
    obtain ⟨hcallee, harguments, htext, -⟩ := hmembers
    simp only [ofJson?, hfields, Option.bind_eq_bind, Option.bind_some, Option.pure_def,
      Callee.tolerates.reads_required hcallee rfl h.callee,
      Argument.tolerates.list.reads_withDefault [] harguments rfl (List.forall_mem_nil _)
        h.arguments,
      tolerates_text.reads_required htext rfl trivial]
  spares {c o y} hread := by
    obtain ⟨fields, hfields, hmembers⟩ :=
      Json.fields?_without c.toJson fieldNames rfl rfl (by decide) o
    simp only [ofJson?, hfields, Option.bind_eq_bind, Option.bind_some, Option.bind_eq_some_iff]
      at hread
    obtain ⟨callee, rcallee, arguments, rarguments, text, rtext, -⟩ := hread
    refine (Form.respects_object_iff _).mpr ?_
    simp only [List.forall_mem_cons] at hmembers ⊢
    obtain ⟨hcallee, harguments, htext, -⟩ := hmembers
    exact ⟨Callee.tolerates.spares_required hcallee rfl rcallee,
      Argument.tolerates.list.spares_withDefault harguments rfl rarguments,
      tolerates_text.spares_required htext rfl rtext, List.forall_mem_nil _⟩

end Call

/-! ## Variables -/

namespace Variable

def form : Form := .record [
  ("name", none, .plain),
  ("type_name", some (.string ""), .plain),
  ("location", none, .plain)]

theorem tolerates : Tolerates form toJson ofJson? Anything where
  reads {x o} _ hallows := by
    obtain ⟨fields, hfields, hmembers⟩ := hallows.fields? fieldNames rfl rfl (by decide)
    simp only [List.forall_mem_cons] at hmembers
    obtain ⟨hname, htype, hstorage, -⟩ := hmembers
    simp only [ofJson?, hfields, Option.bind_eq_bind, Option.bind_some, Option.pure_def,
      tolerates_text.reads_required hname rfl trivial,
      tolerates_text.reads_withDefault "" htype rfl trivial trivial,
      Storage.tolerates.reads_required hstorage rfl trivial]
  spares {x o y} hread := by
    obtain ⟨fields, hfields, hmembers⟩ :=
      Json.fields?_without x.toJson fieldNames rfl rfl (by decide) o
    simp only [ofJson?, hfields, Option.bind_eq_bind, Option.bind_some, Option.bind_eq_some_iff]
      at hread
    obtain ⟨name, rname, typeName, rtype, storage, rstorage, -⟩ := hread
    refine (Form.respects_object_iff _).mpr ?_
    simp only [List.forall_mem_cons] at hmembers ⊢
    obtain ⟨hname, htype, hstorage, -⟩ := hmembers
    exact ⟨tolerates_text.spares_required hname rfl rname,
      tolerates_text.spares_withDefault htype rfl rtype,
      Storage.tolerates.spares_required hstorage rfl rstorage, List.forall_mem_nil _⟩

end Variable

/-! ## Programs -/

theorem tolerates_arena {α : Type} {form : Form} {encode : α → Json} {decode : Json → Option α}
    {Fits : α → Prop} (h : Tolerates form encode decode Fits) :
    Tolerates (.list form) (fun parts : Array α => .ofList encode parts.toList)
      (Program.arena? decode) (fun parts => ∀ x ∈ parts.toList, Fits x) where
  reads hparts hallows := by
    rw [Program.arena?, h.list.reads hparts hallows, Option.map_some, Array.toArray_toList]
  spares hread := by
    obtain ⟨xs, hxs, -⟩ := Option.map_eq_some_iff.mp hread
    exact h.list.spares hxs

namespace Program

def form : Form := .record [
  ("contracts", some (.array []), .list Contract.form),
  ("functions", some (.array []), .list Function.form),
  ("nodes", some (.array []), .list Node.form),
  ("calls", some (.array []), .list Call.form),
  ("variables", some (.array []), .list Variable.form)]

theorem tolerates : Tolerates form toJson ofJson? WordSized where
  reads {p o} h hallows := by
    obtain ⟨fields, hfields, hmembers⟩ := hallows.fields? fieldNames rfl rfl (by decide)
    simp only [List.forall_mem_cons] at hmembers
    obtain ⟨hcontracts, hfunctions, hnodes, hcalls, hvars, -⟩ := hmembers
    simp only [ofJson?, hfields, Option.bind_eq_bind, Option.bind_some, Option.pure_def,
      (tolerates_arena Contract.tolerates).reads_withDefault #[] hcontracts rfl
        (List.forall_mem_nil _) h.contracts,
      (tolerates_arena Function.tolerates).reads_withDefault #[] hfunctions rfl
        (List.forall_mem_nil _) h.functions,
      (tolerates_arena Node.tolerates).reads_withDefault #[] hnodes rfl
        (List.forall_mem_nil _) h.nodes,
      (tolerates_arena Call.tolerates).reads_withDefault #[] hcalls rfl
        (List.forall_mem_nil _) h.calls,
      (tolerates_arena Variable.tolerates).reads_withDefault #[] hvars rfl
        (List.forall_mem_nil _) fun _ _ => trivial]
  spares {p o y} hread := by
    obtain ⟨fields, hfields, hmembers⟩ :=
      Json.fields?_without p.toJson fieldNames rfl rfl (by decide) o
    simp only [ofJson?, hfields, Option.bind_eq_bind, Option.bind_some, Option.bind_eq_some_iff]
      at hread
    obtain ⟨contracts, rcontracts, functions, rfunctions, nodes, rnodes, calls, rcalls, vars,
      rvars, -⟩ := hread
    refine (Form.respects_object_iff _).mpr ?_
    simp only [List.forall_mem_cons] at hmembers ⊢
    obtain ⟨hcontracts, hfunctions, hnodes, hcalls, hvars, -⟩ := hmembers
    exact ⟨(tolerates_arena Contract.tolerates).spares_withDefault hcontracts rfl rcontracts,
      (tolerates_arena Function.tolerates).spares_withDefault hfunctions rfl rfunctions,
      (tolerates_arena Node.tolerates).spares_withDefault hnodes rfl rnodes,
      (tolerates_arena Call.tolerates).spares_withDefault hcalls rfl rcalls,
      (tolerates_arena Variable.tolerates).spares_withDefault hvars rfl rvars,
      List.forall_mem_nil _⟩

end Program

/-! ## Documents -/

namespace Edge

def form : Form := .record [
  ("function", none, .plain),
  ("variable", none, .plain),
  ("depends_on", none, .plain)]

theorem tolerates : Tolerates form toJson ofJson? WordSized where
  reads {e o} h hallows := by
    obtain ⟨fields, hfields, hmembers⟩ := hallows.fields? fieldNames rfl rfl (by decide)
    simp only [List.forall_mem_cons] at hmembers
    obtain ⟨hscope, htarget, hsource, -⟩ := hmembers
    simp only [ofJson?, hfields, Option.bind_eq_bind, Option.bind_some, Option.pure_def,
      Handle.tolerates.reads_required hscope rfl h.scope,
      Handle.tolerates.reads_required htarget rfl h.target,
      Handle.tolerates.reads_required hsource rfl h.source]
  spares {e o y} hread := by
    obtain ⟨fields, hfields, hmembers⟩ :=
      Json.fields?_without e.toJson fieldNames rfl rfl (by decide) o
    simp only [ofJson?, hfields, Option.bind_eq_bind, Option.bind_some, Option.bind_eq_some_iff]
      at hread
    obtain ⟨scope, rscope, target, rtarget, source, rsource, -⟩ := hread
    refine (Form.respects_object_iff _).mpr ?_
    simp only [List.forall_mem_cons] at hmembers ⊢
    obtain ⟨hscope, htarget, hsource, -⟩ := hmembers
    exact ⟨Handle.tolerates.spares_required hscope rfl rscope,
      Handle.tolerates.spares_required htarget rfl rtarget,
      Handle.tolerates.spares_required hsource rfl rsource, List.forall_mem_nil _⟩

end Edge

theorem InfluenceGraph.tolerates :
    Tolerates (.list Edge.form) InfluenceGraph.toJson InfluenceGraph.ofJson?
      InfluenceGraph.Storable where
  reads {g o} h hallows := by
    -- the edges come back as they were, and a built graph is the graph of its edges
    rw [ofJson?, toJson, Edge.tolerates.list.reads h.edges hallows, Option.map_some,
      h.built.ofList_toList]
  spares hread := by
    obtain ⟨edges, hedges, -⟩ := Option.map_eq_some_iff.mp hread
    exact Edge.tolerates.list.spares hedges

namespace Document

/-- The members of a document at every place, with the defaults of those that may be left out. -/
def form : Form := .record [
  ("program", none, Program.form),
  ("dependencies", some (.array []), .list Edge.form)]

theorem tolerates : Tolerates form toJson ofJson? Storable where
  reads {d o} h hallows := by
    obtain ⟨fields, hfields, hmembers⟩ := hallows.fields? fieldNames rfl rfl (by decide)
    simp only [List.forall_mem_cons] at hmembers
    obtain ⟨hprogram, hinfluence, -⟩ := hmembers
    simp only [ofJson?, hfields, Option.bind_eq_bind, Option.bind_some, Option.pure_def,
      Program.tolerates.reads_required hprogram rfl h.words.program,
      InfluenceGraph.tolerates.reads_withDefault .empty hinfluence rfl InfluenceGraph.storable_empty
        h.influence]
  spares {d o y} hread := by
    obtain ⟨fields, hfields, hmembers⟩ :=
      Json.fields?_without d.toJson fieldNames rfl rfl (by decide) o
    simp only [ofJson?, hfields, Option.bind_eq_bind, Option.bind_some, Option.bind_eq_some_iff]
      at hread
    obtain ⟨program, rprogram, influence, rinfluence, -⟩ := hread
    refine (Form.respects_object_iff _).mpr ?_
    simp only [List.forall_mem_cons] at hmembers ⊢
    obtain ⟨hprogram, hinfluence, -⟩ := hmembers
    exact ⟨Program.tolerates.spares_required hprogram rfl rprogram,
      InfluenceGraph.tolerates.spares_withDefault hinfluence rfl rinfluence,
      List.forall_mem_nil _⟩

/-- **Defaults may be left out of a document, and nothing else.** If every member that is lost,
wherever it was, had the default of its place, then the rest is read as the same document. If some
member is lost that has no default, whatever it was and whatever else is lost, then the rest is
not read as a document. -/
theorem ofJson?_without (d : Document) (h : d.Storable) (o : Omission) :
    ((∀ place name v, Json.Loses o d.toJson place name v → form.default? place name = some v) →
        ofJson? (d.toJson.without o) = some d)
      ∧ ((∃ place name v,
            Json.Loses o d.toJson place name v ∧ form.default? place name = none) →
        ofJson? (d.toJson.without o) = none) := by
  constructor
  · intro hallows
    exact tolerates.reads h hallows
  · rintro ⟨place, name, v, hlost, hnone⟩
    rw [Option.eq_none_iff_forall_not_mem]
    intro y hread
    exact tolerates.spares hread place name v hlost hnone

/-- Leaves out all members of some names, wherever they are. -/
def dropping (names : List String) : Omission := fun _ name => names.contains name

/-- A function without anything in it, and a call with an argument that is no bare variable. -/
def plainSpoken : Document where
  program := {
    contracts := #[]
    functions := #[⟨"sync", "sync()", .function, ⟨0⟩, [], []⟩]
    nodes := #[]
    calls := #[⟨.other, [⟨"1 + 1", .computed⟩], "g(1 + 1)"⟩]
    vars := #[] }
  influence := .empty

/-- The names of members that have their default wherever they are in it. -/
def dispensable : List String :=
  ["contracts", "nodes", "variables", "kind", "returns", "expr", "dependencies"]

/-- Without these it has lost members of the document, of the program, of the function and of the
argument, `nodes` in two places, and is read as before. Without the texts, which a call and an
argument have to have, it is no document. -/
theorem ofJson?_without_plainSpoken :
    plainSpoken.Storable
      ∧ plainSpoken.toJson.without (dropping dispensable)
        = .object [("program", .object [
            ("functions", .array [.object [
              ("name", .string "sync"), ("full_name", .string "sync()"), ("contract", .ofNat 0)]]),
            ("calls", .array [.object [
              ("callee", .string "other"),
              ("arguments", .array [.object [("text", .string "1 + 1")]]),
              ("text", .string "g(1 + 1)")]])])]
      ∧ ofJson? (plainSpoken.toJson.without (dropping dispensable)) = some plainSpoken
      ∧ ofJson? (plainSpoken.toJson.without (dropping ["text"])) = none := by
  have hstorable : plainSpoken.Storable := by
    refine ⟨.empty, ⟨⟨nofun, ?_, nofun, ?_⟩, nofun⟩⟩
    · refine List.forall_mem_singleton.mpr ⟨?_, nofun, nofun⟩
      exact Nat.two_pow_pos 64
    · exact List.forall_mem_singleton.mpr ⟨trivial, List.forall_mem_singleton.mpr trivial⟩
  refine ⟨hstorable, rfl, (ofJson?_without plainSpoken hstorable _).1 ?_,
    (ofJson?_without plainSpoken hstorable _).2 ?_⟩
  · -- part by part, which is possible because the omission is the same at every place
    have hsingle : ∀ {item : Form} {v : Json}, item.Allows (dropping dispensable) v →
        (Form.list item).Allows (dropping dispensable) (.array [v]) := by
      intro item v h
      refine (Form.respects_array_iff [v]).mpr fun i u hu => ?_
      obtain rfl := List.mem_singleton.mp (List.mem_of_getElem? hu)
      exact h
    have hfunction : Function.form.Allows (dropping dispensable)
        (Function.toJson ⟨"sync", "sync()", .function, ⟨0⟩, [], []⟩) := by
      refine (Form.respects_object_iff _).mpr ?_
      simp only [List.forall_mem_cons]
      exact ⟨nofun, nofun, rfl, nofun, rfl, rfl, nofun⟩
    have hargument : Argument.form.Allows (dropping dispensable)
        (Argument.toJson ⟨"1 + 1", .computed⟩) := by
      refine (Form.respects_object_iff _).mpr ?_
      simp only [List.forall_mem_cons]
      exact ⟨nofun, rfl, nofun⟩
    have hcall : Call.form.Allows (dropping dispensable)
        (Call.toJson ⟨.other, [⟨"1 + 1", .computed⟩], "g(1 + 1)"⟩) := by
      refine (Form.respects_object_iff _).mpr ?_
      simp only [List.forall_mem_cons]
      exact ⟨nofun, hsingle hargument, nofun, nofun⟩
    have hprogram : Program.form.Allows (dropping dispensable) plainSpoken.program.toJson := by
      refine (Form.respects_object_iff _).mpr ?_
      simp only [List.forall_mem_cons]
      exact ⟨rfl, hsingle hfunction, rfl, hsingle hcall, rfl, nofun⟩
    have hdocument : form.Allows (dropping dispensable) plainSpoken.toJson := by
      refine (Form.respects_object_iff _).mpr ?_
      simp only [List.forall_mem_cons]
      exact ⟨hprogram, rfl, nofun⟩
    exact hdocument
  · exact ⟨[.member "program", .member "calls", .item 0], "text", .string "g(1 + 1)",
      .member (.head _) rfl (.member (.tail _ (.tail _ (.tail _ (.head _)))) rfl
        (.item rfl (.here (.tail _ (.tail _ (.head _))) rfl))), rfl⟩

end Document

end PriceTaint
