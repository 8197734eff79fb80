/-
What validation accepts, and what it says when it does not.

`Refers` lists once all the places where a part of a program holds a handle. A
document is well formed when all of these point inside their arenas, the owners of
declared functions and of listed nodes are who they should be, and the edges stay
inside the program. The list of faults is then shown to hold exactly the violations
of these conditions, which gives both directions: no fault means well formed, and a
fault that is reported really is there.

Validation reports the first fault and stops. `Document.examine` is that pass step
by step, with a direct access to a declared function that would fail if the
function did not exist. It never does, because all handles of the contract have
been looked at before.
-/
import Mathlib.Data.List.Basic
import PriceTaint.Document

set_option autoImplicit false

namespace PriceTaint

/-! ## References -/

/-- The part `holder` of the program holds the handle. -/
inductive Program.Refers (p : Program) : Holder → {kind : Kind} → Handle kind → Prop where
  | callable {id : ContractId} {c : Contract} {f : FunctionId} (hc : p.contractAt? id = some c)
      (hf : f ∈ c.functions) : Refers p (.contract id c.name) f
  | declared {id : ContractId} {c : Contract} {f : FunctionId} (hc : p.contractAt? id = some c)
      (hf : f ∈ c.declared) : Refers p (.contract id c.name) f
  | home {id : FunctionId} {f : Function} (hf : p.functionAt? id = some f) :
      Refers p (.function id f.name) f.contract
  | listed {id : FunctionId} {f : Function} {n : NodeId} (hf : p.functionAt? id = some f)
      (hn : n ∈ f.nodes) : Refers p (.function id f.name) n
  | returned {id : FunctionId} {f : Function} {v : VariableId} (hf : p.functionAt? id = some f)
      (hv : v ∈ f.returns) : Refers p (.function id f.name) v
  | owner {id : NodeId} {n : Node} (hn : p.nodeAt? id = some n) : Refers p (.node id) n.owner
  | called {id : NodeId} {n : Node} {c : CallId} (hn : p.nodeAt? id = some n)
      (hc : c ∈ n.calls) : Refers p (.node id) c
  | internal {id : NodeId} {n : Node} {f : FunctionId} (hn : p.nodeAt? id = some n)
      (hf : .function f ∈ n.internalCalls) : Refers p (.node id) f
  | written {id : NodeId} {n : Node} {v : VariableId} (hn : p.nodeAt? id = some n)
      (hv : v ∈ n.written) : Refers p (.node id) v
  | read {id : NodeId} {n : Node} {v : VariableId} (hn : p.nodeAt? id = some n)
      (hv : v ∈ n.read) : Refers p (.node id) v
  | target {id : CallId} {c : Call} {f : FunctionId} (hc : p.callAt? id = some c)
      (hf : c.callee = .resolved (.function f)) : Refers p (.call id c.text) f
  | guard {id : CallId} {c : Call} {f : FunctionId} (hc : p.callAt? id = some c)
      (hf : c.callee = .resolved (.modifier f)) : Refers p (.call id c.text) f
  | argument {id : CallId} {c : Call} {a : Argument} {v : VariableId}
      (hc : p.callAt? id = some c) (ha : a ∈ c.arguments) (hv : a.operand = .variable v) :
      Refers p (.call id c.text) v
  | wrapped {id : CallId} {c : Call} {a : Argument} {v : VariableId}
      (hc : p.callAt? id = some c) (ha : a ∈ c.arguments) (hv : a.operand = .wrapped v) :
      Refers p (.call id c.text) v

/-- What it takes for a document to be well formed. -/
structure Document.WellFormed (d : Document) : Prop where
  /-- All handles point inside their arenas. -/
  inRange : ∀ {kind : Kind} (holder : Holder) (h : Handle kind), d.program.Refers holder h →
    h.index < d.program.count kind
  /-- A function is declared by the contract it belongs to. -/
  declaredByOwner : ∀ id c f function, d.program.contractAt? id = some c → f ∈ c.declared →
    d.program.functionAt? f = some function → function.contract = id
  /-- A node is listed by the function it belongs to. -/
  listedByOwner : ∀ id f n node, d.program.functionAt? id = some f → n ∈ f.nodes →
    d.program.nodeAt? n = some node → node.owner = id
  /-- The dependency edges stay inside the program. -/
  edges : ∀ e ∈ d.influence.toList, e.scope.index < d.program.count .function
    ∧ e.target.index < d.program.count .variable ∧ e.source.index < d.program.count .variable

/-- The fault describes something that is wrong with the program. -/
inductive Program.HasFault (p : Program) : Fault → Prop where
  | dangling {holder : Holder} {kind : Kind} {h : Handle kind} (href : p.Refers holder h)
      (hout : p.count kind ≤ h.index) : HasFault p (.dangling holder kind h.index)
  | nodeOwner {id : FunctionId} {f : Function} {n : NodeId} {node : Node}
      (hf : p.functionAt? id = some f) (hn : n ∈ f.nodes) (hnode : p.nodeAt? n = some node)
      (howner : node.owner ≠ id) : HasFault p (.nodeOwner n id f.name node.owner)
  | functionOwner {id : ContractId} {c : Contract} {f : FunctionId} {function : Function}
      (hc : p.contractAt? id = some c) (hf : f ∈ c.declared)
      (hfun : p.functionAt? f = some function) (howner : function.contract ≠ id) :
      HasFault p (.functionOwner f function.name id c.name function.contract)

/-- The fault describes something that is wrong with the document. -/
inductive Document.HasFault (d : Document) : Fault → Prop where
  | program {fault : Fault} (h : d.program.HasFault fault) : HasFault d fault
  | scope {e : Edge} (he : e ∈ d.influence.toList)
      (hout : d.program.count .function ≤ e.scope.index) :
      HasFault d (.danglingEdge e.scope .function e.scope.index)
  | endpoint {e : Edge} {v : VariableId} (he : e ∈ d.influence.toList)
      (hv : v = e.target ∨ v = e.source) (hout : d.program.count .variable ≤ v.index) :
      HasFault d (.danglingEdge e.scope .variable v.index)

namespace Program

/-! ## The faults of each part -/

theorem not_holds_iff (p : Program) {kind : Kind} (h : Handle kind) :
    ¬ p.holds h = true ↔ p.count kind ≤ h.index := by
  rw [holds, decide_eq_true_iff, Nat.not_lt]

theorem danglingFault?_eq_some_iff (p : Program) (holder : Holder) {kind : Kind} (h : Handle kind)
    (fault : Fault) :
    p.danglingFault? holder h = some fault
      ↔ p.count kind ≤ h.index ∧ fault = .dangling holder kind h.index := by
  rw [danglingFault?, Option.ite_none_left_eq_some, not_holds_iff, Option.some.injEq, eq_comm]

theorem mem_danglingFaults_iff (p : Program) (holder : Holder) {kind : Kind}
    (hs : List (Handle kind)) (fault : Fault) :
    fault ∈ p.danglingFaults holder hs
      ↔ ∃ h ∈ hs, p.count kind ≤ h.index ∧ fault = .dangling holder kind h.index := by
  rw [danglingFaults, List.mem_filterMap]
  simp only [danglingFault?_eq_some_iff]

/-- The wrongly declared functions of a contract. -/
theorem mem_contractFaults_iff (p : Program) (id : ContractId) (c : Contract) (fault : Fault) :
    fault ∈ p.contractFaults id c
      ↔ (∃ f ∈ c.functions ++ c.declared, p.count .function ≤ f.index
          ∧ fault = .dangling (.contract id c.name) .function f.index)
        ∨ ∃ f ∈ c.declared, ∃ function, p.functionAt? f = some function ∧ function.contract ≠ id
          ∧ fault = .functionOwner f function.name id c.name function.contract := by
  rw [contractFaults, List.mem_append, mem_danglingFaults_iff, List.mem_filterMap]
  simp only [Option.bind_eq_some_iff, Option.ite_none_left_eq_some, Option.some.injEq,
    @eq_comm _ fault]

theorem listedNodeFault?_eq_some_iff (p : Program) (id : FunctionId) (f : Function) (n : NodeId)
    (fault : Fault) :
    p.listedNodeFault? id f n = some fault
      ↔ (p.count .node ≤ n.index ∧ fault = .dangling (.function id f.name) .node n.index)
        ∨ ∃ node, p.nodeAt? n = some node ∧ node.owner ≠ id
          ∧ fault = .nodeOwner n id f.name node.owner := by
  rw [listedNodeFault?]
  cases hn : p.nodeAt? n with
  | none =>
    have hout : p.count .node ≤ n.index := Array.getElem?_eq_none_iff.mp hn
    simp [hout, eq_comm]
  | some node =>
    obtain ⟨hin, -⟩ := Array.getElem?_eq_some_iff.mp hn
    have hnot : ¬ p.count .node ≤ n.index := Nat.not_le.mpr hin
    dsimp only
    rw [Option.ite_none_left_eq_some, Option.some.injEq]
    constructor
    · rintro ⟨howner, rfl⟩
      exact .inr ⟨node, rfl, howner, rfl⟩
    · rintro (⟨hout, -⟩ | ⟨_, heq, howner, rfl⟩)
      · exact absurd hout hnot
      · cases heq
        exact ⟨howner, rfl⟩

theorem mem_functionFaults_iff (p : Program) (id : FunctionId) (f : Function) (fault : Fault) :
    fault ∈ p.functionFaults id f
      ↔ (p.count .contract ≤ f.contract.index
          ∧ fault = .dangling (.function id f.name) .contract f.contract.index)
        ∨ (∃ n ∈ f.nodes, p.count .node ≤ n.index
            ∧ fault = .dangling (.function id f.name) .node n.index)
        ∨ (∃ n ∈ f.nodes, ∃ node, p.nodeAt? n = some node ∧ node.owner ≠ id
            ∧ fault = .nodeOwner n id f.name node.owner)
        ∨ ∃ v ∈ f.returns, p.count .variable ≤ v.index
            ∧ fault = .dangling (.function id f.name) .variable v.index := by
  rw [functionFaults, List.mem_append, List.mem_append, Option.mem_toList,
    danglingFault?_eq_some_iff, List.mem_filterMap, mem_danglingFaults_iff]
  simp only [listedNodeFault?_eq_some_iff, and_or_left, exists_or, or_assoc]

theorem mem_internalFunctions_iff (n : Node) (f : FunctionId) :
    f ∈ internalFunctions n ↔ .function f ∈ n.internalCalls := by
  rw [internalFunctions, List.mem_filterMap]
  constructor
  · rintro ⟨internal, hmem, hsome⟩
    cases internal with
    | function g => cases hsome; exact hmem
    | builtin name => cases hsome
  · intro hmem
    exact ⟨.function f, hmem, rfl⟩

theorem mem_nodeFaults_iff (p : Program) (id : NodeId) (n : Node) (fault : Fault) :
    fault ∈ p.nodeFaults id n
      ↔ (p.count .function ≤ n.owner.index ∧ fault = .dangling (.node id) .function n.owner.index)
        ∨ (∃ c ∈ n.calls, p.count .call ≤ c.index ∧ fault = .dangling (.node id) .call c.index)
        ∨ (∃ f, .function f ∈ n.internalCalls ∧ p.count .function ≤ f.index
            ∧ fault = .dangling (.node id) .function f.index)
        ∨ ∃ v ∈ n.written ++ n.read, p.count .variable ≤ v.index
            ∧ fault = .dangling (.node id) .variable v.index := by
  rw [nodeFaults, List.mem_append, List.mem_append, List.mem_append, Option.mem_toList,
    danglingFault?_eq_some_iff, mem_danglingFaults_iff, mem_danglingFaults_iff,
    mem_danglingFaults_iff]
  simp only [mem_internalFunctions_iff, or_assoc]

theorem calleeFunction?_eq_some_iff (callee : Callee) (f : FunctionId) :
    calleeFunction? callee = some f
      ↔ callee = .resolved (.function f) ∨ callee = .resolved (.modifier f) := by
  cases callee with
  | resolved target => cases target <;> simp [calleeFunction?]
  | member name => simp [calleeFunction?]
  | other => simp [calleeFunction?]

theorem operandVariable?_eq_some_iff (operand : Operand) (v : VariableId) :
    operandVariable? operand = some v ↔ operand = .variable v ∨ operand = .wrapped v := by
  cases operand <;> simp [operandVariable?]

theorem mem_callFaults_iff (p : Program) (id : CallId) (c : Call) (fault : Fault) :
    fault ∈ p.callFaults id c
      ↔ (∃ f, (c.callee = .resolved (.function f) ∨ c.callee = .resolved (.modifier f))
          ∧ p.count .function ≤ f.index ∧ fault = .dangling (.call id c.text) .function f.index)
        ∨ ∃ v, (∃ a ∈ c.arguments, a.operand = .variable v ∨ a.operand = .wrapped v)
          ∧ p.count .variable ≤ v.index
          ∧ fault = .dangling (.call id c.text) .variable v.index := by
  rw [callFaults, List.mem_append, mem_danglingFaults_iff, mem_danglingFaults_iff]
  simp only [Option.mem_toList, calleeFunction?_eq_some_iff, List.mem_filterMap,
    operandVariable?_eq_some_iff]

/-- The faults found by going through an arena. -/
theorem mem_flatMap_arena_iff {α : Type} (arena : Array α) (faults : α × Nat → List Fault)
    (fault : Fault) :
    fault ∈ arena.toList.zipIdx.flatMap faults
      ↔ ∃ i x, arena[i]? = some x ∧ fault ∈ faults (x, i) := by
  rw [List.mem_flatMap]
  constructor
  · rintro ⟨⟨x, i⟩, hmem, hfault⟩
    rw [List.mk_mem_zipIdx_iff_getElem?, Array.getElem?_toList] at hmem
    exact ⟨i, x, hmem, hfault⟩
  · rintro ⟨i, x, hx, hfault⟩
    refine ⟨(x, i), ?_, hfault⟩
    rw [List.mk_mem_zipIdx_iff_getElem?, Array.getElem?_toList]
    exact hx

/-- The list of faults holds what is wrong with the program, and nothing else. -/
theorem mem_faults_iff (p : Program) (fault : Fault) : fault ∈ p.faults ↔ p.HasFault fault := by
  rw [faults, List.mem_append, List.mem_append, List.mem_append, mem_flatMap_arena_iff,
    mem_flatMap_arena_iff, mem_flatMap_arena_iff, mem_flatMap_arena_iff]
  simp only [mem_contractFaults_iff, mem_functionFaults_iff, mem_nodeFaults_iff,
    mem_callFaults_iff]
  constructor
  · rintro (((⟨i, c, hc, hfault⟩ | ⟨i, f, hf, hfault⟩) | ⟨i, n, hn, hfault⟩) | ⟨i, c, hc, hfault⟩)
    · rcases hfault with ⟨f, hf, hout, rfl⟩ | ⟨f, hf, function, hfun, howner, rfl⟩
      · rcases List.mem_append.mp hf with h | h
        · exact .dangling (.callable hc h) hout
        · exact .dangling (.declared hc h) hout
      · exact .functionOwner hc hf hfun howner
    · rcases hfault with ⟨hout, rfl⟩ | ⟨n, hn, hout, rfl⟩ | ⟨n, hn, node, hnode, howner, rfl⟩
        | ⟨v, hv, hout, rfl⟩
      · exact .dangling (.home hf) hout
      · exact .dangling (.listed hf hn) hout
      · exact .nodeOwner hf hn hnode howner
      · exact .dangling (.returned hf hv) hout
    · rcases hfault with ⟨hout, rfl⟩ | ⟨c, hc, hout, rfl⟩ | ⟨f, hf, hout, rfl⟩ | ⟨v, hv, hout, rfl⟩
      · exact .dangling (.owner hn) hout
      · exact .dangling (.called hn hc) hout
      · exact .dangling (.internal hn hf) hout
      · rcases List.mem_append.mp hv with h | h
        · exact .dangling (.written hn h) hout
        · exact .dangling (.read hn h) hout
    · rcases hfault with ⟨f, hf | hf, hout, rfl⟩ | ⟨v, ⟨a, ha, hv | hv⟩, hout, rfl⟩
      · exact .dangling (.target hc hf) hout
      · exact .dangling (.guard hc hf) hout
      · exact .dangling (.argument hc ha hv) hout
      · exact .dangling (.wrapped hc ha hv) hout
  · intro h
    cases h with
    | dangling href hout =>
      cases href with
      | @callable id c f hc hf =>
        exact .inl (.inl (.inl ⟨id.index, c, hc, .inl ⟨f, List.mem_append_left _ hf, hout, rfl⟩⟩))
      | @declared id c f hc hf =>
        exact .inl (.inl (.inl ⟨id.index, c, hc, .inl ⟨f, List.mem_append_right _ hf, hout, rfl⟩⟩))
      | @home id f hf => exact .inl (.inl (.inr ⟨id.index, f, hf, .inl ⟨hout, rfl⟩⟩))
      | @listed id f n hf hn =>
        exact .inl (.inl (.inr ⟨id.index, f, hf, .inr (.inl ⟨n, hn, hout, rfl⟩)⟩))
      | @returned id f v hf hv =>
        exact .inl (.inl (.inr ⟨id.index, f, hf, .inr (.inr (.inr ⟨v, hv, hout, rfl⟩))⟩))
      | @owner id n hn => exact .inl (.inr ⟨id.index, n, hn, .inl ⟨hout, rfl⟩⟩)
      | @called id n c hn hc =>
        exact .inl (.inr ⟨id.index, n, hn, .inr (.inl ⟨c, hc, hout, rfl⟩)⟩)
      | @internal id n f hn hf =>
        exact .inl (.inr ⟨id.index, n, hn, .inr (.inr (.inl ⟨f, hf, hout, rfl⟩))⟩)
      | @written id n v hn hv =>
        exact .inl (.inr ⟨id.index, n, hn,
          .inr (.inr (.inr ⟨v, List.mem_append_left _ hv, hout, rfl⟩))⟩)
      | @read id n v hn hv =>
        exact .inl (.inr ⟨id.index, n, hn,
          .inr (.inr (.inr ⟨v, List.mem_append_right _ hv, hout, rfl⟩))⟩)
      | @target id c f hc hf => exact .inr ⟨id.index, c, hc, .inl ⟨f, .inl hf, hout, rfl⟩⟩
      | @guard id c f hc hf => exact .inr ⟨id.index, c, hc, .inl ⟨f, .inr hf, hout, rfl⟩⟩
      | @argument id c a v hc ha hv =>
        exact .inr ⟨id.index, c, hc, .inr ⟨v, ⟨a, ha, .inl hv⟩, hout, rfl⟩⟩
      | @wrapped id c a v hc ha hv =>
        exact .inr ⟨id.index, c, hc, .inr ⟨v, ⟨a, ha, .inr hv⟩, hout, rfl⟩⟩
    | @nodeOwner id f n node hf hn hnode howner =>
      exact .inl (.inl (.inr ⟨id.index, f, hf,
        .inr (.inr (.inl ⟨n, hn, node, hnode, howner, rfl⟩))⟩))
    | @functionOwner id c f function hc hf hfun howner =>
      exact .inl (.inl (.inl ⟨id.index, c, hc, .inr ⟨f, hf, function, hfun, howner, rfl⟩⟩))

end Program

/-! ## Documents -/

theorem InfluenceGraph.mem_edgeFaults_iff (p : Program) (e : Edge) (fault : Fault) :
    fault ∈ edgeFaults p e
      ↔ (p.count .function ≤ e.scope.index
          ∧ fault = .danglingEdge e.scope .function e.scope.index)
        ∨ ∃ v, (v = e.target ∨ v = e.source) ∧ p.count .variable ≤ v.index
          ∧ fault = .danglingEdge e.scope .variable v.index := by
  rw [edgeFaults, List.mem_append, List.mem_filterMap]
  refine or_congr ?_ ?_
  · rw [List.mem_ite_nil_left, Program.not_holds_iff, List.mem_singleton]
  · refine exists_congr fun v => ?_
    rw [List.mem_cons, List.mem_singleton, Option.ite_none_left_eq_some, Program.not_holds_iff,
      Option.some.injEq, @eq_comm _ fault]

namespace Document

theorem mem_faults_iff (d : Document) (fault : Fault) : fault ∈ d.faults ↔ d.HasFault fault := by
  rw [faults, List.mem_append, Program.mem_faults_iff, InfluenceGraph.faults, List.mem_flatMap]
  simp only [InfluenceGraph.mem_edgeFaults_iff]
  constructor
  · rintro (h | ⟨e, he, ⟨hout, rfl⟩ | ⟨v, hv, hout, rfl⟩⟩)
    · exact .program h
    · exact .scope he hout
    · exact .endpoint he hv hout
  · intro h
    cases h with
    | program h => exact .inl h
    | @scope e he hout => exact .inr ⟨e, he, .inl ⟨hout, rfl⟩⟩
    | @endpoint e v he hv hout => exact .inr ⟨e, he, .inr ⟨v, hv, hout, rfl⟩⟩

/-- Well formed means that no fault describes the document. -/
theorem wellFormed_iff (d : Document) : d.WellFormed ↔ ∀ fault, ¬ d.HasFault fault := by
  constructor
  · intro hd fault hfault
    cases hfault with
    | program h =>
      cases h with
      | dangling href hout => exact Nat.not_lt.mpr hout (hd.inRange _ _ href)
      | nodeOwner hf hn hnode howner => exact howner (hd.listedByOwner _ _ _ _ hf hn hnode)
      | functionOwner hc hf hfun howner => exact howner (hd.declaredByOwner _ _ _ _ hc hf hfun)
    | scope he hout => exact Nat.not_lt.mpr hout (hd.edges _ he).1
    | endpoint he hv hout =>
      rcases hv with rfl | rfl
      · exact Nat.not_lt.mpr hout (hd.edges _ he).2.1
      · exact Nat.not_lt.mpr hout (hd.edges _ he).2.2
  · intro hnone
    constructor
    · intro kind holder h href
      exact Nat.lt_of_not_le fun hout => hnone _ (.program (.dangling href hout))
    · intro id c f function hc hf hfun
      exact Classical.byContradiction fun howner =>
        hnone _ (.program (.functionOwner hc hf hfun howner))
    · intro id f n node hf hn hnode
      exact Classical.byContradiction fun howner =>
        hnone _ (.program (.nodeOwner hf hn hnode howner))
    · intro e he
      refine ⟨?_, ?_, ?_⟩
      · exact Nat.lt_of_not_le fun hout => hnone _ (.scope he hout)
      · exact Nat.lt_of_not_le fun hout => hnone _ (.endpoint he (.inl rfl) hout)
      · exact Nat.lt_of_not_le fun hout => hnone _ (.endpoint he (.inr rfl) hout)

end Document

/-! ## The pass, step by step -/

/-- How the pass can stop: at a fault, or at an access outside an arena. -/
inductive Halt where
  | fault (f : Fault)
  | outOfBounds

namespace Program

/-- Stops unless the handle points inside its arena. -/
def expect (p : Program) (holder : Holder) {kind : Kind} (h : Handle kind) : Except Halt Unit :=
  if p.holds h then .ok () else .error (.fault (.dangling holder kind h.index))

/-- All handles of a contract, and then the owners of the functions it declares. The
functions are accessed directly here. -/
def examineContract (p : Program) (id : ContractId) (c : Contract) : Except Halt Unit := do
  (c.functions ++ c.declared).forM (p.expect (.contract id c.name))
  c.declared.forM fun f =>
    match p.functionAt? f with
    | none => .error .outOfBounds
    | some function =>
      if function.contract = id then .ok ()
      else .error (.fault (.functionOwner f function.name id c.name function.contract))

def examineFunction (p : Program) (id : FunctionId) (f : Function) : Except Halt Unit := do
  p.expect (.function id f.name) f.contract
  f.nodes.forM fun n =>
    match p.nodeAt? n with
    | none => .error (.fault (.dangling (.function id f.name) .node n.index))
    | some node =>
      if node.owner = id then .ok () else .error (.fault (.nodeOwner n id f.name node.owner))
  f.returns.forM (p.expect (.function id f.name))

def examineNode (p : Program) (id : NodeId) (n : Node) : Except Halt Unit := do
  p.expect (.node id) n.owner
  n.calls.forM (p.expect (.node id))
  n.internalCalls.forM fun
    | .function f => p.expect (.node id) f
    | .builtin _ => .ok ()
  (n.written ++ n.read).forM (p.expect (.node id))

def examineCallee (p : Program) (id : CallId) (c : Call) : Except Halt Unit :=
  match c.callee with
  | .resolved (.function f) => p.expect (.call id c.text) f
  | .resolved (.modifier f) => p.expect (.call id c.text) f
  | _ => .ok ()

def examineCall (p : Program) (id : CallId) (c : Call) : Except Halt Unit := do
  p.examineCallee id c
  c.arguments.forM fun a =>
    match a.operand with
    | .variable v => p.expect (.call id c.text) v
    | .wrapped v => p.expect (.call id c.text) v
    | .computed => .ok ()

/-- The parts of a program, arena by arena. -/
def examine (p : Program) : Except Halt Unit := do
  p.contracts.toList.zipIdx.forM fun e => p.examineContract ⟨e.2⟩ e.1
  p.functions.toList.zipIdx.forM fun e => p.examineFunction ⟨e.2⟩ e.1
  p.nodes.toList.zipIdx.forM fun e => p.examineNode ⟨e.2⟩ e.1
  p.calls.toList.zipIdx.forM fun e => p.examineCall ⟨e.2⟩ e.1

end Program

namespace InfluenceGraph

/-- Stops unless the handle of an edge points inside its arena. -/
def expectEnd (p : Program) (scope : FunctionId) {kind : Kind} (h : Handle kind) :
    Except Halt Unit :=
  if p.holds h then .ok () else .error (.fault (.danglingEdge scope kind h.index))

/-- The scope of an edge, and then its ends. -/
def examineEdge (p : Program) (e : Edge) : Except Halt Unit := do
  expectEnd p e.scope e.scope
  [e.target, e.source].forM (expectEnd p e.scope)

end InfluenceGraph

/-- The program, and then the edges. -/
def Document.examine (d : Document) : Except Halt Unit := do
  d.program.examine
  d.influence.toList.forM (InfluenceGraph.examineEdge d.program)

/-! A check agrees with a list of faults if it stops at the first of them. Checks in
sequence agree with the lists one after the other; the second check may rely on the
first having found nothing, which is what makes the direct access safe. -/

/-- The check stops at the first of the faults, and otherwise goes through. -/
def Agrees (check : Except Halt Unit) (faults : List Fault) : Prop :=
  check = (Fault.firstOf faults).mapError .fault

theorem agrees_ok : Agrees (.ok ()) [] := rfl

theorem agrees_fault (f : Fault) : Agrees (.error (.fault f)) [f] := rfl

/-- A single condition, with its fault. -/
theorem agrees_ite (condition : Prop) [Decidable condition] (f : Fault) :
    Agrees (if condition then .ok () else .error (.fault f)) (if condition then [] else [f]) := by
  by_cases h : condition
  · rw [if_pos h, if_pos h]
    exact agrees_ok
  · rw [if_neg h, if_neg h]
    exact agrees_fault f

theorem Agrees.seq {first second : Except Halt Unit} {fs gs : List Fault} (hfirst : Agrees first fs)
    (hsecond : fs = [] → Agrees second gs) : Agrees (first >>= fun _ => second) (fs ++ gs) := by
  unfold Agrees at hfirst
  cases fs with
  | nil =>
    rw [hfirst, List.nil_append]
    exact hsecond rfl
  | cons f fs =>
    rw [hfirst]
    rfl

theorem Agrees.forM {α : Type} {check : α → Except Halt Unit} {faults : α → List Fault}
    (xs : List α) (h : ∀ x ∈ xs, Agrees (check x) (faults x)) :
    Agrees (xs.forM check) (xs.flatMap faults) := by
  induction xs with
  | nil => exact agrees_ok
  | cons x xs ih =>
    rw [List.forM_eq_forM, List.forM_cons, List.flatMap_cons]
    refine (h x List.mem_cons_self).seq fun _ => ih ?_
    intro y hy
    exact h y (List.mem_cons_of_mem x hy)

namespace Program

theorem agrees_expect (p : Program) (holder : Holder) {kind : Kind} (h : Handle kind) :
    Agrees (p.expect holder h) (p.danglingFault? holder h).toList := by
  rw [expect, danglingFault?, apply_ite Option.toList]
  exact agrees_ite _ _

theorem agrees_forM_expect (p : Program) (holder : Holder) {kind : Kind}
    (hs : List (Handle kind)) :
    Agrees (hs.forM (p.expect holder)) (p.danglingFaults holder hs) := by
  rw [danglingFaults, List.filterMap_eq_flatMap_toList]
  exact .forM hs fun h _ => p.agrees_expect holder h

/-- If no handle of a contract dangles, the functions that it declares are there. -/
theorem functionAt?_isSome_of_danglingFaults (p : Program) (id : ContractId) (c : Contract)
    (hnone : p.danglingFaults (.contract id c.name) (c.functions ++ c.declared) = [])
    (f : FunctionId) (hf : f ∈ c.declared) : ∃ function, p.functionAt? f = some function := by
  cases hfun : p.functionAt? f with
  | some function => exact ⟨function, rfl⟩
  | none =>
    have hout : p.count .function ≤ f.index := Array.getElem?_eq_none_iff.mp hfun
    have hmem := (p.mem_danglingFaults_iff (.contract id c.name) (c.functions ++ c.declared) _).mpr
      ⟨f, List.mem_append_right _ hf, hout, rfl⟩
    rw [hnone] at hmem
    exact absurd hmem List.not_mem_nil

theorem agrees_examineContract (p : Program) (id : ContractId) (c : Contract) :
    Agrees (p.examineContract id c) (p.contractFaults id c) := by
  -- the second pass may rely on the first, which went over the same list
  refine (p.agrees_forM_expect _ _).seq fun hnone => ?_
  rw [List.filterMap_eq_flatMap_toList]
  refine .forM c.declared fun f hf => ?_
  obtain ⟨function, hfun⟩ := p.functionAt?_isSome_of_danglingFaults id c hnone f hf
  rw [hfun]
  dsimp only [Option.bind_some]
  rw [apply_ite Option.toList]
  exact agrees_ite _ _

theorem agrees_examineFunction (p : Program) (id : FunctionId) (f : Function) :
    Agrees (p.examineFunction id f) (p.functionFaults id f) := by
  rw [functionFaults, List.append_assoc]
  refine (p.agrees_expect _ _).seq fun _ => .seq ?_ fun _ => p.agrees_forM_expect _ _
  rw [List.filterMap_eq_flatMap_toList]
  refine .forM f.nodes fun n _ => ?_
  rw [listedNodeFault?]
  cases p.nodeAt? n with
  | none => exact agrees_fault _
  | some node =>
    dsimp only
    rw [apply_ite Option.toList]
    exact agrees_ite _ _

theorem agrees_examineNode (p : Program) (id : NodeId) (n : Node) :
    Agrees (p.examineNode id n) (p.nodeFaults id n) := by
  rw [nodeFaults, List.append_assoc, List.append_assoc]
  refine (p.agrees_expect _ _).seq fun _ => (p.agrees_forM_expect _ _).seq fun _ =>
    .seq ?_ fun _ => p.agrees_forM_expect _ _
  rw [danglingFaults, internalFunctions, List.filterMap_filterMap, List.filterMap_eq_flatMap_toList]
  refine .forM n.internalCalls fun internal _ => ?_
  cases internal with
  | function f => exact p.agrees_expect _ _
  | builtin name => exact agrees_ok

theorem agrees_examineCall (p : Program) (id : CallId) (c : Call) :
    Agrees (p.examineCall id c) (p.callFaults id c) := by
  have hone : ∀ f : FunctionId, Agrees (p.expect (.call id c.text) f)
      (p.danglingFaults (.call id c.text) [f]) := by
    intro f
    rw [danglingFaults, List.filterMap_eq_flatMap_toList, List.flatMap_singleton]
    exact p.agrees_expect _ f
  refine .seq ?_ fun _ => ?_
  · rw [examineCallee]
    cases c.callee with
    | resolved target =>
      cases target with
      | function f => exact hone f
      | modifier f => exact hone f
      | event name => exact agrees_ok
      | builtin name => exact agrees_ok
    | member name => exact agrees_ok
    | other => exact agrees_ok
  · rw [danglingFaults, List.filterMap_filterMap, List.filterMap_eq_flatMap_toList]
    refine .forM c.arguments fun a _ => ?_
    match a.operand with
    | .variable v => exact p.agrees_expect _ _
    | .wrapped v => exact p.agrees_expect _ _
    | .computed => exact agrees_ok

theorem agrees_examine (p : Program) : Agrees p.examine p.faults := by
  rw [faults, List.append_assoc, List.append_assoc]
  exact (Agrees.forM _ fun e _ => p.agrees_examineContract ⟨e.2⟩ e.1).seq fun _ =>
    (Agrees.forM _ fun e _ => p.agrees_examineFunction ⟨e.2⟩ e.1).seq fun _ =>
    (Agrees.forM _ fun e _ => p.agrees_examineNode ⟨e.2⟩ e.1).seq fun _ =>
    Agrees.forM _ fun e _ => p.agrees_examineCall ⟨e.2⟩ e.1

end Program

namespace InfluenceGraph

theorem agrees_examineEdge (p : Program) (e : Edge) :
    Agrees (examineEdge p e) (edgeFaults p e) := by
  refine (agrees_ite _ _).seq fun _ => ?_
  rw [List.filterMap_eq_flatMap_toList]
  refine .forM _ fun v _ => ?_
  rw [apply_ite Option.toList]
  exact agrees_ite _ _

end InfluenceGraph

namespace Document

theorem agrees_examine (d : Document) : Agrees d.examine d.faults :=
  d.program.agrees_examine.seq fun _ =>
    Agrees.forM _ fun e _ => InfluenceGraph.agrees_examineEdge d.program e

/-! ## Soundness and completeness -/

theorem validate_eq_ok_iff_faults (d : Document) : d.validate = .ok () ↔ d.faults = [] := by
  rw [validate]
  cases d.faults with
  | nil => simp [Fault.firstOf]
  | cons f fs => simp [Fault.firstOf]

theorem mem_faults_of_validate (d : Document) (fault : Fault) (h : d.validate = .error fault) :
    fault ∈ d.faults := by
  rw [validate] at h
  cases hfaults : d.faults with
  | nil =>
    rw [hfaults] at h
    cases h
  | cons f fs =>
    rw [hfaults] at h
    cases h
    exact List.mem_cons_self

/-- **Validation.** It succeeds exactly on the well-formed documents, a fault that it
reports really is in the document, and the pass that looks for faults one after the
other comes to the same outcome without ever accessing a function that is not
there. -/
theorem validate_sound_complete (d : Document) :
    (d.validate = .ok () ↔ d.WellFormed)
      ∧ (∀ fault, d.validate = .error fault → d.HasFault fault)
      ∧ d.examine = d.validate.mapError .fault
      ∧ d.examine ≠ .error .outOfBounds := by
  refine ⟨?_, ?_, d.agrees_examine, ?_⟩
  · rw [validate_eq_ok_iff_faults, wellFormed_iff, List.eq_nil_iff_forall_not_mem]
    simp only [mem_faults_iff]
  · intro fault h
    exact (d.mem_faults_iff fault).mp (d.mem_faults_of_validate fault h)
  · rw [d.agrees_examine]
    cases d.faults with
    | nil => intro h; cases h
    | cons f fs => intro h; cases h

end Document

end PriceTaint
