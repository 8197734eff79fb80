/-
Which flows a function has, and which nodes a report names.

A flow is determined by a sink variable, a node, a variable that the node assigns
and a read that it makes; the lists of flows hold exactly the combinations for
which the influence answers yes. A report keeps the nodes of all flows that can be
reported at all: dropping repeated entries loses entries and never a node.
-/
import Mathlib.Data.List.Basic
import PriceTaint.Proofs.Taint.Reads
import PriceTaint.Taint.Detector

set_option autoImplicit false

namespace PriceTaint

namespace Analysis

/-! ## Sinks -/

/-- The variable is an argument, and nothing more, of a call of `f` that moves
funds. -/
def AmountMoved (p : Program) (f : FunctionId) (v : VariableId) : Prop :=
  ∃ m n id c a, (m, n) ∈ p.bodyOf f ∧ id ∈ n.calls ∧ p.callAt? id = some c
    ∧ p.callMatches c .fundMovements = true ∧ a ∈ c.arguments ∧ a.operand = .variable v
    ∧ (p.variableAt? v).isSome

/-- The variable is read by a node of `f` that returns, or is declared to be
returned. -/
def ValueReturned (p : Program) (f : FunctionId) (v : VariableId) : Prop :=
  (∃ m n, (m, n) ∈ p.bodyOf f ∧ n.willReturn = true ∧ v ∈ n.read)
    ∨ ∃ function, p.functionAt? f = some function ∧ v ∈ function.returns

theorem bareVariable?_eq_some_iff (a : Argument) (v : VariableId) :
    a.bareVariable? = some v ↔ a.operand = .variable v := by
  rw [Argument.bareVariable?]
  cases a.operand <;> simp

theorem mem_movedAmounts_iff (p : Program) (f : FunctionId) (v : VariableId) :
    v ∈ movedAmounts p f ↔ AmountMoved p f v := by
  rw [movedAmounts, List.mem_flatMap]
  constructor
  · rintro ⟨c, hc, hv⟩
    rw [List.mem_filter, List.mem_filterMap] at hc
    obtain ⟨⟨id, hid, hcall⟩, hmoves⟩ := hc
    rw [List.mem_filter, List.mem_filterMap] at hv
    obtain ⟨⟨a, ha, hbare⟩, hsome⟩ := hv
    obtain ⟨m, n, hbody, hn⟩ := (p.mem_callsOf_iff f id).mp hid
    exact ⟨m, n, id, c, a, hbody, hn, hcall, hmoves, ha,
      (bareVariable?_eq_some_iff a v).mp hbare, hsome⟩
  · rintro ⟨m, n, id, c, a, hbody, hn, hcall, hmoves, ha, hoperand, hsome⟩
    refine ⟨c, List.mem_filter.mpr ⟨List.mem_filterMap.mpr ⟨id, ?_, hcall⟩, hmoves⟩,
      List.mem_filter.mpr ⟨List.mem_filterMap.mpr ⟨a, ha, ?_⟩, hsome⟩⟩
    · exact (p.mem_callsOf_iff f id).mpr ⟨m, n, hbody, hn⟩
    · exact (bareVariable?_eq_some_iff a v).mpr hoperand

theorem mem_returnedValues_iff (p : Program) (f : FunctionId) (v : VariableId) :
    v ∈ returnedValues p f ↔ ValueReturned p f v := by
  rw [returnedValues, List.mem_append, List.mem_flatMap, ValueReturned]
  refine or_congr ?_ ?_
  · constructor
    · rintro ⟨⟨m, n⟩, hmem, hv⟩
      rw [List.mem_filter] at hmem
      exact ⟨m, n, hmem.1, hmem.2, hv⟩
    · rintro ⟨m, n, hbody, hret, hv⟩
      exact ⟨(m, n), List.mem_filter.mpr ⟨hbody, hret⟩, hv⟩
  · cases p.functionAt? f with
    | none => simp
    | some function => simp

/-- The variable lies at a sink of `f`. -/
def AtSink (p : Program) (f : FunctionId) (v : VariableId) : Sink → Prop
  | .movedAmounts => AmountMoved p f v
  | .returnedValues => ValueReturned p f v

theorem mem_riskVariables_iff (a : Analysis) (f : FunctionId) (v : VariableId) :
    v ∈ a.riskVariables f ↔ AtSink a.program f v a.lens.sink := by
  rw [riskVariables]
  cases a.lens.sink with
  | movedAmounts => rw [List.mem_eraseDups, mem_movedAmounts_iff, AtSink]
  | returnedValues => rw [List.mem_eraseDups, mem_returnedValues_iff, AtSink]

/-! ## Flows -/

theorem mem_taintedNodes_iff (a : Analysis) (f : FunctionId) (e : NodeId × Footprint) :
    e ∈ a.taintedNodes f
      ↔ ∃ n, (e.1, n) ∈ a.program.bodyOf f ∧ a.footprint n = e.2 ∧ e.2.written ≠ []
          ∧ e.2.reads ≠ [] := by
  obtain ⟨id, print⟩ := e
  rw [taintedNodes, List.mem_filter, List.mem_map]
  simp only [Bool.and_eq_true, Bool.not_eq_true', List.isEmpty_eq_false_iff]
  constructor
  · rintro ⟨⟨⟨m, n⟩, hbody, heq⟩, hwritten, hreads⟩
    cases heq
    exact ⟨n, hbody, rfl, hwritten, hreads⟩
  · rintro ⟨n, hbody, rfl, hwritten, hreads⟩
    exact ⟨⟨(id, n), hbody, rfl⟩, hwritten, hreads⟩

/-- The dependent flows of a function: one for every sink variable, node, assigned
variable that may influence the sink, and read of the node. -/
theorem mem_dependentFlows_iff (a : Analysis) (f : FunctionId) (flow : DependentFlow) :
    flow ∈ a.dependentFlows f
      ↔ flow.function = f ∧ flow.risk ∈ a.riskVariables f
        ∧ a.influence flow.risk flow.tainted f = true
        ∧ ∃ n, (flow.node, n) ∈ a.program.bodyOf f ∧ flow.tainted ∈ (a.footprint n).written
          ∧ flow.read ∈ (a.footprint n).reads := by
  rw [dependentFlows, List.mem_flatMap]
  simp only [List.mem_flatMap, flowsInto, List.mem_filter, List.mem_map, mem_taintedNodes_iff]
  constructor
  · rintro ⟨risk, hrisk, ⟨id, print⟩, ⟨n, hbody, rfl, -, -⟩, tainted, ⟨hwritten, hinfl⟩, read,
      hread, rfl⟩
    exact ⟨rfl, hrisk, hinfl, n, hbody, hwritten, hread⟩
  · rintro ⟨rfl, hrisk, hinfl, n, hbody, hwritten, hread⟩
    -- a node with a flow has something written and something read, so it was kept
    exact ⟨flow.risk, hrisk, (flow.node, a.footprint n),
      ⟨n, hbody, rfl, List.ne_nil_of_mem hwritten, List.ne_nil_of_mem hread⟩, flow.tainted,
      ⟨hwritten, hinfl⟩, flow.read, hread, rfl⟩

/-- The amounts moved, call by call. -/
theorem movedAmounts_eq (p : Program) (f : FunctionId) :
    movedAmounts p f = (p.callsOf f).flatMap fun id => (p.callAt? id).toList.flatMap fun c =>
      if p.callMatches c .fundMovements then
        (c.arguments.filterMap Argument.bareVariable?).filter fun v => (p.variableAt? v).isSome
      else [] := by
  rw [movedAmounts, List.flatMap_filter_eq, List.filterMap_eq_flatMap_toList, List.flatMap_assoc]

/-- Nodes without anything written or read have no flows, so leaving them out
changes nothing. -/
theorem dependentFlows_eq (a : Analysis) (f : FunctionId) :
    a.dependentFlows f
      = (a.riskVariables f).flatMap fun risk => (a.program.bodyOf f).flatMap fun e =>
          a.flowsInto f risk (e.1, a.footprint e.2) := by
  have hguard : ∀ (risk : VariableId) (e : NodeId × Footprint),
      (if !e.2.written.isEmpty && !e.2.reads.isEmpty then a.flowsInto f risk e else [])
        = a.flowsInto f risk e := by
    intro risk e
    rw [flowsInto]
    cases e.2.written <;> cases e.2.reads <;> simp
  rw [dependentFlows, taintedNodes]
  simp only [List.flatMap_filter_eq, hguard, List.flatMap_map]

/-- A read of a footprint still goes by the names of the lens when it is looked at
again, so the second look drops nothing. -/
theorem confirms_of_mem_reads (a : Analysis) (n : Node) (read : PriceRead)
    (h : read ∈ (a.footprint n).reads) : a.confirms read = true := by
  cases read with
  | builtin name => rfl
  | call id =>
    obtain ⟨-, k, -, -, hread⟩ :=
      (Lens.mem_footprint_reads_iff a.lens a.program a.depth n (.call id)).mp h
    obtain ⟨c, hcall, -, hmatch, -⟩ := (a.lens.isRead_iff a.program id).mp hread
    rw [confirms, hcall]
    exact hmatch

/-- The return flows, node by node, without the second look at the reads. -/
theorem returnReads_eq (a : Analysis) (f : FunctionId) :
    a.returnReads f
      = (a.program.bodyOf f).flatMap fun e =>
          if returnsCalls e.2 then (a.footprint e.2).reads.map fun read => (read, e.1) else [] := by
  have hconfirmed : ∀ n, (a.footprint n).reads.filter a.confirms = (a.footprint n).reads :=
    fun n => List.filter_eq_self.mpr (a.confirms_of_mem_reads n)
  rw [returnReads]
  simp only [hconfirmed, List.flatMap_filter_eq]

/-- The return flows: all reads of the nodes that return the outcome of calls. -/
theorem mem_returnReads_iff (a : Analysis) (f : FunctionId) (read : PriceRead) (id : NodeId) :
    (read, id) ∈ a.returnReads f
      ↔ ∃ n, (id, n) ∈ a.program.bodyOf f ∧ returnsCalls n = true
          ∧ read ∈ (a.footprint n).reads := by
  rw [returnReads, List.mem_flatMap]
  constructor
  · rintro ⟨⟨m, n⟩, hmem, hread⟩
    rw [List.mem_filter] at hmem
    rw [List.mem_map] at hread
    obtain ⟨read', hread', heq⟩ := hread
    cases heq
    exact ⟨n, hmem.1, hmem.2, (List.mem_filter.mp hread').1⟩
  · rintro ⟨n, hbody, hret, hread⟩
    refine ⟨(id, n), List.mem_filter.mpr ⟨hbody, hret⟩, List.mem_map.mpr ⟨read, ?_, rfl⟩⟩
    exact List.mem_filter.mpr ⟨hread, confirms_of_mem_reads a n read hread⟩

theorem returnsCalls_iff (n : Node) :
    returnsCalls n = true
      ↔ n.willReturn = true ∧ ¬ Text.Contained "require" n.text ∧ n.calls ≠ [] := by
  rw [returnsCalls, Bool.and_eq_true, Bool.and_eq_true, Bool.not_eq_true', ← Text.contains_iff,
    Bool.not_eq_true, Bool.not_eq_true', List.isEmpty_eq_false_iff, and_assoc]

end Analysis

/-! ## Flows of several functions -/

namespace Flows

theorem concat_eq (fs : List Flows) :
    concat fs = ⟨fs.flatMap dependent, fs.flatMap returned⟩ := by
  have hfold : ∀ (fs : List Flows) (acc : Flows),
      fs.foldl append acc
        = ⟨acc.dependent ++ fs.flatMap dependent, acc.returned ++ fs.flatMap returned⟩ := by
    intro fs
    induction fs with
    | nil => intro acc; simp
    | cons f fs ih =>
      intro acc
      rw [List.foldl_cons, ih, append, List.flatMap_cons, List.flatMap_cons, List.append_assoc,
        List.append_assoc]
  rw [concat, hfold]
  rfl

end Flows

namespace Analysis

/-- The entries of several functions: first all dependent flows, then all return
flows. -/
theorem entries_flowsOf (a : Analysis) (fs : List FunctionId) :
    (a.flowsOf fs).entries
      = (fs.flatMap fun f => (a.dependentFlows f).map .dependent)
        ++ fs.flatMap fun f => (a.flows f).returned.map .returned := by
  rw [Flows.entries, flowsOf, Flows.concat_eq, List.flatMap_map, List.flatMap_map,
    List.map_flatMap, List.map_flatMap]
  rfl

/-- The entries that several functions give rise to. -/
theorem mem_entries_flowsOf_iff (a : Analysis) (fs : List FunctionId) (e : Entry) :
    e ∈ (a.flowsOf fs).entries
      ↔ (∃ f ∈ fs, ∃ flow ∈ a.dependentFlows f, e = .dependent flow)
        ∨ a.lens.needsInfluence = false ∧ ∃ f ∈ fs, ∃ read id, (read, id) ∈ a.returnReads f
            ∧ e = .returned ⟨f, read, id⟩ := by
  rw [Flows.entries, List.mem_append, List.mem_map, List.mem_map, flowsOf, Flows.concat_eq]
  simp only [List.mem_flatMap, List.mem_map]
  refine or_congr ?_ ?_
  · constructor
    · rintro ⟨flow, ⟨_, ⟨f, hf, rfl⟩, hflow⟩, rfl⟩
      exact ⟨f, hf, flow, hflow, rfl⟩
    · rintro ⟨f, hf, flow, hflow, rfl⟩
      exact ⟨flow, ⟨a.flows f, ⟨f, hf, rfl⟩, hflow⟩, rfl⟩
  · constructor
    · rintro ⟨flow, ⟨_, ⟨f, hf, rfl⟩, hflow⟩, rfl⟩
      rw [flows] at hflow
      by_cases hneeds : a.lens.needsInfluence = true
      · rw [if_pos hneeds] at hflow
        exact absurd hflow List.not_mem_nil
      · rw [if_neg hneeds, List.mem_map] at hflow
        obtain ⟨⟨read, id⟩, hmem, rfl⟩ := hflow
        exact ⟨by simpa using hneeds, f, hf, read, id, hmem, rfl⟩
    · rintro ⟨hneeds, f, hf, read, id, hmem, rfl⟩
      refine ⟨⟨f, read, id⟩, ⟨a.flows f, ⟨f, hf, rfl⟩, ?_⟩, rfl⟩
      rw [flows, hneeds]
      exact List.mem_map.mpr ⟨(read, id), hmem, rfl⟩

/-- The nodes at which several functions have an entry: those of their bodies that
read a price and either assign to a variable that may influence a sink or, if no
influence is asked for, return the outcome of calls. -/
theorem exists_entry_at_iff (a : Analysis) (fs : List FunctionId) (id : NodeId) :
    (∃ e ∈ (a.flowsOf fs).entries, e.node = id)
      ↔ ∃ f ∈ fs, ∃ n, (id, n) ∈ a.program.bodyOf f ∧ (∃ read, read ∈ (a.footprint n).reads)
        ∧ ((∃ w ∈ (a.footprint n).written, ∃ r ∈ a.riskVariables f, a.influence r w f = true)
          ∨ (a.lens.needsInfluence = false ∧ returnsCalls n = true)) := by
  simp only [mem_entries_flowsOf_iff]
  constructor
  · rintro ⟨e, ⟨f, hf, flow, hflow, rfl⟩ | ⟨hneeds, f, hf, read, m, hmem, rfl⟩, rfl⟩
    · obtain ⟨-, hrisk, hinfl, n, hbody, hwritten, hread⟩ :=
        (mem_dependentFlows_iff a f flow).mp hflow
      exact ⟨f, hf, n, hbody, ⟨flow.read, hread⟩,
        .inl ⟨flow.tainted, hwritten, flow.risk, hrisk, hinfl⟩⟩
    · obtain ⟨n, hbody, hret, hread⟩ := (mem_returnReads_iff a f read m).mp hmem
      exact ⟨f, hf, n, hbody, ⟨read, hread⟩, .inr ⟨hneeds, hret⟩⟩
  · rintro ⟨f, hf, n, hbody, ⟨read, hread⟩, ⟨w, hw, r, hr, hinfl⟩ | ⟨hneeds, hret⟩⟩
    · refine ⟨.dependent ⟨f, r, w, read, id⟩, .inl ⟨f, hf, _, ?_, rfl⟩, rfl⟩
      exact (mem_dependentFlows_iff a f _).mpr ⟨rfl, hr, hinfl, n, hbody, hw, hread⟩
    · refine ⟨.returned ⟨f, read, id⟩, .inr ⟨hneeds, f, hf, read, id, ?_, rfl⟩, rfl⟩
      exact (mem_returnReads_iff a f read id).mpr ⟨n, hbody, hret, hread⟩

end Analysis

/-! ## Reports -/

theorem Node.emitsEvent_eq_false_iff (n : Node) :
    n.emitsEvent = false ↔ ∀ name, .eventCall name ∉ n.operations := by
  rw [Node.emitsEvent, List.any_eq_false]
  constructor
  · intro h name hmem
    exact h _ hmem rfl
  · intro h op hop
    cases op with
    | eventCall name => exact absurd hop (h name)
    | _ => simp

theorem Program.isReportable_iff (p : Program) (id : NodeId) :
    p.isReportable id = true
      ↔ ∃ n, p.nodeAt? id = some n ∧ ∀ name, .eventCall name ∉ n.operations := by
  rw [Program.isReportable, Option.any_eq_true]
  simp only [Bool.not_eq_true', Node.emitsEvent_eq_false_iff]

namespace ContractReport

/-- The nodes that are kept: those that can be reported and, where each may stand
only once, that have not been seen. -/
theorem exists_mem_keep_iff (p : Program) (oncePerNode : Bool) (seen : List NodeId)
    (entries : List Entry) (n : NodeId) :
    (∃ e ∈ keep p oncePerNode seen entries, e.node = n)
      ↔ (oncePerNode = true → n ∉ seen) ∧ p.isReportable n = true ∧ ∃ e ∈ entries, e.node = n := by
  induction entries generalizing seen with
  | nil => simp [keep]
  | cons e entries ih =>
    rw [keep]
    by_cases hdrop : ((oncePerNode && seen.contains e.node) || !p.isReportable e.node) = true
    · rw [if_pos hdrop, ih]
      -- The dropped entry cannot be the only one for its node.
      constructor
      · rintro ⟨hseen, hrep, e', he', rfl⟩
        exact ⟨hseen, hrep, e', List.mem_cons_of_mem e he', rfl⟩
      · rintro ⟨hseen, hrep, e', he', rfl⟩
        refine ⟨hseen, hrep, ?_⟩
        rcases List.mem_cons.mp he' with rfl | htail
        · rw [Bool.or_eq_true, Bool.and_eq_true, hrep, List.contains_iff_mem] at hdrop
          rcases hdrop with ⟨honce, hmem⟩ | hfalse
          · exact absurd hmem (hseen honce)
          · simp at hfalse
        · exact ⟨e', htail, rfl⟩
    · rw [if_neg hdrop]
      rw [Bool.not_eq_true, Bool.or_eq_false_iff, Bool.not_eq_false'] at hdrop
      obtain ⟨hnew, hrep⟩ := hdrop
      constructor
      · rintro ⟨e', he', rfl⟩
        rcases List.mem_cons.mp he' with rfl | htail
        · refine ⟨?_, hrep, e', List.mem_cons_self, rfl⟩
          intro honce hmem
          rw [honce, Bool.true_and, List.contains_eq_mem, decide_eq_false_iff_not] at hnew
          exact hnew hmem
        · obtain ⟨hseen, hrep', e'', he'', hnode⟩ := (ih (e.node :: seen)).mp ⟨e', htail, rfl⟩
          refine ⟨fun honce hmem => hseen honce (List.mem_cons_of_mem _ hmem), hrep', ?_⟩
          exact ⟨e'', List.mem_cons_of_mem e he'', hnode⟩
      · rintro ⟨hseen, hrep', e', he', rfl⟩
        -- an entry for the node of `e` is stood for by `e`; another one is still to come
        by_cases hsame : e'.node = e.node
        · exact ⟨e, List.mem_cons_self, hsame.symm⟩
        · have htail : e' ∈ entries := by
            rcases List.mem_cons.mp he' with rfl | h
            · exact absurd rfl hsame
            · exact h
          have hseen' : oncePerNode = true → e'.node ∉ e.node :: seen := by
            intro honce hmem
            rcases List.mem_cons.mp hmem with h | h
            · exact hsame h
            · exact hseen honce h
          obtain ⟨e'', he'', hnode⟩ := (ih (e.node :: seen)).mpr ⟨hseen', hrep', e', htail, rfl⟩
          exact ⟨e'', List.mem_cons_of_mem e he'', hnode⟩

/-- A node stands in the report on some flows exactly if it can be reported and one
of the flows is at it. -/
theorem mem_nodes_ofFlows?_iff (p : Program) (id : ContractId) (flows : Flows)
    (oncePerNode : Bool) (n : NodeId) :
    (∃ r, ofFlows? p id flows oncePerNode = some r ∧ n ∈ r.nodes)
      ↔ p.isReportable n = true ∧ ∃ e ∈ flows.entries, e.node = n := by
  have hkeep := exists_mem_keep_iff p oncePerNode [] flows.entries n
  simp only [List.not_mem_nil, not_false_eq_true, implies_true, true_and] at hkeep
  rw [← hkeep, ofFlows?]
  cases keep p oncePerNode [] flows.entries with
  | nil => simp
  | cons e entries => simp [nodes]

/-- Whatever is kept was there before, in the same order. -/
theorem keep_sublist (p : Program) (oncePerNode : Bool) (seen : List NodeId)
    (entries : List Entry) : (keep p oncePerNode seen entries).Sublist entries := by
  induction entries generalizing seen with
  | nil => exact List.Sublist.slnil
  | cons e entries ih =>
    rw [keep]
    by_cases hdrop : ((oncePerNode && seen.contains e.node) || !p.isReportable e.node) = true
    · rw [if_pos hdrop]
      exact (ih seen).cons e
    · rw [if_neg hdrop]
      exact (ih (e.node :: seen)).cons_cons e

end ContractReport

/-- Where a node may have several entries, only those are dropped that cannot be
reported. -/
theorem ContractReport.keep_false (p : Program) (seen : List NodeId) (entries : List Entry) :
    keep p false seen entries = entries.filter fun e => p.isReportable e.node := by
  induction entries generalizing seen with
  | nil => rfl
  | cons e entries ih =>
    rw [keep, Bool.false_and, Bool.false_or]
    by_cases hrep : p.isReportable e.node = true
    · rw [if_neg (by simp [hrep]), List.filter_cons, if_pos hrep, ih]
    · rw [if_pos (by simpa using hrep), List.filter_cons, if_neg hrep, ih]

/-- What it takes for a detector to give a report: the contract is there and not
exempt, and the report holds what is kept of its flows. -/
theorem Detector.reportOn_eq_some {d : Detector} {p : Program} {influence : Influence}
    {c : ContractId} {r : ContractReport} (h : d.reportOn p influence c = some r) :
    ∃ contract, p.contractAt? c = some contract ∧ p.exemption? c = none
      ∧ r.contract = c ∧ r.contractName = contract.name
      ∧ r.entries = ContractReport.keep p d.oncePerNode []
          ((d.analysis p influence).flowsOf contract.functions).entries
      ∧ r.message = ContractReport.messageOf p r.entries := by
  rw [reportOn] at h
  cases hc : p.contractAt? c with
  | none => simp [hc] at h
  | some contract =>
    cases hex : p.exemption? c with
    | some reason => simp [hc, hex] at h
    | none =>
      simp only [hc, hex, ContractReport.ofFlows?] at h
      cases hkept : ContractReport.keep p d.oncePerNode []
          ((d.analysis p influence).flowsOf contract.functions).entries with
      | nil => simp [hkept] at h
      | cons e entries =>
        simp only [hkept, Option.some.injEq] at h
        subst h
        exact ⟨contract, rfl, rfl, rfl, rfl, hkept.symm, rfl⟩

/-- The detector reports the node in its report on the contract. -/
def Detector.Reports (d : Detector) (p : Program) (influence : Influence) (c : ContractId)
    (n : NodeId) : Prop :=
  ∃ r, d.reportOn p influence c = some r ∧ n ∈ r.nodes

/-- What any detector reports: the nodes without an event that are at a flow of one
of the functions of a contract that is not exempt. -/
theorem Detector.reports_iff (d : Detector) (p : Program) (influence : Influence) (c : ContractId)
    (n : NodeId) :
    d.Reports p influence c n
      ↔ ∃ contract, p.contractAt? c = some contract ∧ p.exemption? c = none
        ∧ p.isReportable n = true
        ∧ ∃ e ∈ ((d.analysis p influence).flowsOf contract.functions).entries, e.node = n := by
  unfold Reports reportOn
  cases hc : p.contractAt? c with
  | none => simp
  | some contract =>
    cases he : p.exemption? c with
    | some reason => simp
    | none =>
      dsimp only
      rw [ContractReport.mem_nodes_ofFlows?_iff]
      simp

end PriceTaint
