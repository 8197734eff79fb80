/-
Looking further never loses a finding.

Two knobs make an analysis see more: the depth to which calls are followed, and the
edges of the influence graph. The comparison of two runs goes stage by stage, and in
each stage the list of the weaker run is a sublist of the list of the stronger one.
New elements may turn up anywhere in between, but what was there stays, in its order
and as often as before. The reason is that no stage looks at what it has found so
far. Only the report does, when each node may stand in it once; there the nodes stay,
while the entries that stand for them may change.
-/
import Mathlib.Data.List.Basic
import Mathlib.Data.List.Flatten
import PriceTaint.Proofs.Taint.Detection

set_option autoImplicit false

namespace PriceTaint

/-! ## More edges -/

namespace InfluenceGraph

variable {g g' : InfluenceGraph}

theorem Built.influence_mono (hg : g.Built) (hg' : g'.Built)
    (hedges : ∀ e ∈ g.toList, e ∈ g'.toList) (candidate source : VariableId) (scope : FunctionId)
    (h : g.influence candidate source scope = true) :
    g'.influence candidate source scope = true := by
  rw [hg'.influence_iff]
  exact ((hg.influence_iff candidate source scope).mp h).mono fun _ _ hstep => hedges _ hstep

end InfluenceGraph

/-! ## More depth -/

namespace Lens

variable (lens : Lens) (p : Program)

/-- A call is either followed, and then gives rise to the reads inside the function it
goes to, or gives rise to the same reads whatever there is inside. -/
theorem readsAt_cases (id : CallId) :
    (∃ g, ∀ inside, lens.readsAt p inside id = inside g)
      ∨ ∃ reads, ∀ inside, lens.readsAt p inside id = reads := by
  rcases lens.readsAt_trichotomy p id with ⟨-, -, heq⟩ | ⟨g, -, -, heq⟩ | ⟨-, -, heq⟩
  · exact .inr ⟨[id], heq⟩
  · exact .inl ⟨g, heq⟩
  · exact .inr ⟨[], heq⟩

theorem readsAt_sublist {inside inside' : FunctionId → List CallId}
    (h : ∀ g, (inside g).Sublist (inside' g)) (id : CallId) :
    (lens.readsAt p inside id).Sublist (lens.readsAt p inside' id) := by
  rcases lens.readsAt_cases p id with ⟨g, hfollow⟩ | ⟨reads, hread⟩
  · rw [hfollow, hfollow]
    exact h g
  · rw [hread, hread]

/-- The walk to a smaller depth is a part of the walk to a larger one. -/
theorem callReads_sublist {depth depth' : Nat} (hdepth : depth ≤ depth') (f : FunctionId) :
    (lens.callReads p depth f).Sublist (lens.callReads p depth' f) := by
  induction depth generalizing depth' f with
  | zero =>
    rw [callReads_zero]
    exact List.nil_sublist _
  | succ depth ih =>
    obtain ⟨k, rfl⟩ : ∃ k, depth' = k + 1 := ⟨depth' - 1, by omega⟩
    rw [callReads_succ, callReads_succ]
    refine List.Sublist.flatMap_right _ fun id _ => ?_
    exact lens.readsAt_sublist p (fun g => ih (by omega) g) id

theorem footprint_reads_sublist {depth depth' : Nat} (hdepth : depth ≤ depth') (n : Node) :
    (lens.footprint p depth n).reads.Sublist (lens.footprint p depth' n).reads := by
  rw [footprint_eq, footprint_eq]
  by_cases hsnap : takesSnapshot p n = true
  · rw [if_pos hsnap, if_pos hsnap]
  · rw [if_neg hsnap, if_neg hsnap]
    have hcalls : (n.calls.flatMap (lens.readsAt p (lens.callReads p depth))).Sublist
        (n.calls.flatMap (lens.readsAt p (lens.callReads p depth'))) := by
      refine List.Sublist.flatMap_right _ fun id _ => ?_
      exact lens.readsAt_sublist p (lens.callReads_sublist p hdepth) id
    exact (hcalls.map PriceRead.call).append (List.Sublist.refl _)

end Lens

/-! ## Flows -/

namespace Analysis

section Stronger

/-! The weaker analysis asks `influence` and goes to `depth`, the stronger one asks
`influence'` and goes to `depth'`. They look at the same program through the same
lens, so the sinks are the same. -/

variable {p : Program} {lens : Lens} {influence influence' : Influence} {depth depth' : Nat}
  (hinfl : ∀ risk v f, influence risk v f = true → influence' risk v f = true)
  (hdepth : depth ≤ depth')

include hinfl hdepth

theorem flowsInto_sublist (f : FunctionId) (risk : VariableId) (id : NodeId) (n : Node) :
    (flowsInto ⟨p, lens, influence, depth⟩ f risk (id, lens.footprint p depth n)).Sublist
      (flowsInto ⟨p, lens, influence', depth'⟩ f risk (id, lens.footprint p depth' n)) := by
  rw [flowsInto, flowsInto]
  dsimp only
  rw [lens.footprint_written_eq lens p depth depth' n]
  have htainted : ((lens.footprint p depth' n).written.filter fun v => influence risk v f).Sublist
      ((lens.footprint p depth' n).written.filter fun v => influence' risk v f) :=
    List.monotone_filter_right _ fun v hv => hinfl risk v f hv
  refine (htainted.flatMap _).trans (List.Sublist.flatMap_right _ fun tainted _ => ?_)
  exact (lens.footprint_reads_sublist p hdepth n).map _

theorem dependentFlows_sublist (f : FunctionId) :
    (dependentFlows ⟨p, lens, influence, depth⟩ f).Sublist
      (dependentFlows ⟨p, lens, influence', depth'⟩ f) := by
  rw [dependentFlows_eq, dependentFlows_eq]
  refine List.Sublist.flatMap_right _ fun risk _ => ?_
  refine List.Sublist.flatMap_right _ fun e _ => ?_
  exact flowsInto_sublist hinfl hdepth f risk e.1 e.2

omit hinfl in
theorem returned_sublist (f : FunctionId) :
    (flows ⟨p, lens, influence, depth⟩ f).returned.Sublist
      (flows ⟨p, lens, influence', depth'⟩ f).returned := by
  rw [flows, flows]
  dsimp only
  by_cases hneeds : lens.needsInfluence = true
  · rw [if_pos hneeds, if_pos hneeds]
  · rw [if_neg hneeds, if_neg hneeds]
    refine List.Sublist.map _ ?_
    rw [returnReads_eq, returnReads_eq]
    refine List.Sublist.flatMap_right _ fun e _ => ?_
    by_cases hreturns : returnsCalls e.2 = true
    · rw [if_pos hreturns, if_pos hreturns]
      exact (lens.footprint_reads_sublist p hdepth e.2).map _
    · rw [if_neg hreturns, if_neg hreturns]

theorem entries_flowsOf_sublist (fs : List FunctionId) :
    (flowsOf ⟨p, lens, influence, depth⟩ fs).entries.Sublist
      (flowsOf ⟨p, lens, influence', depth'⟩ fs).entries := by
  rw [entries_flowsOf, entries_flowsOf]
  refine List.Sublist.append ?_ ?_
  · exact List.Sublist.flatMap_right _ fun f _ => (dependentFlows_sublist hinfl hdepth f).map _
  · exact List.Sublist.flatMap_right _ fun f _ => (returned_sublist hdepth f).map _

end Stronger

end Analysis

/-! ## Reports -/

namespace Detector

/-- The entries of the report on a contract. There are none without a report. -/
def entriesOn (d : Detector) (p : Program) (influence : Influence) (c : ContractId) : List Entry :=
  ((d.reportOn p influence c).map ContractReport.entries).getD []

/-- An analysed contract has the entries that are kept of its flows. -/
theorem entriesOn_eq (d : Detector) {p : Program} (influence : Influence) {c : ContractId}
    {contract : Contract} (hc : p.contractAt? c = some contract) (hex : p.exemption? c = none) :
    d.entriesOn p influence c
      = ContractReport.keep p d.oncePerNode []
          ((d.analysis p influence).flowsOf contract.functions).entries := by
  rw [entriesOn, reportOn, hc, hex]
  dsimp only
  rw [ContractReport.ofFlows?]
  cases ContractReport.keep p d.oncePerNode []
      ((d.analysis p influence).flowsOf contract.functions).entries with
  | nil => rfl
  | cons e entries => rfl

/-- Other contracts have none. -/
theorem entriesOn_of_exempt (d : Detector) {p : Program} (influence : Influence) {c : ContractId}
    (hex : p.exemption? c ≠ none) : d.entriesOn p influence c = [] := by
  rw [entriesOn, reportOn]
  cases p.contractAt? c with
  | none => rfl
  | some contract =>
    cases hreason : p.exemption? c with
    | none => exact absurd hreason hex
    | some reason => rfl

/-- **More depth and more edges.** Every node that is reported stays reported, and if
nodes may stand in a report repeatedly, the entries are a sublist of the entries of
the stronger run. -/
theorem reports_mono (d : Detector) (p : Program) {g g' : InfluenceGraph} (hg : g.Built)
    (hg' : g'.Built) (hedges : ∀ e ∈ g.toList, e ∈ g'.toList) {depth depth' : Nat}
    (hdepth : depth ≤ depth') (c : ContractId) :
    (∀ (oncePerNode : Bool) (n : NodeId),
        Reports { d with depth := depth, oncePerNode := oncePerNode } p g.influence c n →
        Reports { d with depth := depth', oncePerNode := oncePerNode } p g'.influence c n)
      ∧ (entriesOn { d with depth := depth, oncePerNode := false } p g.influence c).Sublist
          (entriesOn { d with depth := depth', oncePerNode := false } p g'.influence c) := by
  have hinfl := hg.influence_mono hg' hedges
  have hentries : ∀ fs : List FunctionId,
      (Analysis.flowsOf ⟨p, d.lens, g.influence, depth⟩ fs).entries.Sublist
        (Analysis.flowsOf ⟨p, d.lens, g'.influence, depth'⟩ fs).entries :=
    fun fs => Analysis.entries_flowsOf_sublist hinfl hdepth fs
  constructor
  · intro oncePerNode n
    rw [reports_iff, reports_iff]
    rintro ⟨contract, hc, hex, hrep, e, he, hnode⟩
    exact ⟨contract, hc, hex, hrep, e, (hentries contract.functions).subset he, hnode⟩
  · by_cases hex : p.exemption? c = none
    · cases hc : p.contractAt? c with
      | none => simp [Program.exemption?, hc] at hex
      | some contract =>
        rw [entriesOn_eq _ _ hc hex, entriesOn_eq _ _ hc hex, ContractReport.keep_false,
          ContractReport.keep_false]
        exact (hentries contract.functions).filter _
    · rw [entriesOn_of_exempt _ _ hex]
      exact List.nil_sublist _

/-- The lender, once at depth one and once at depth two with an edge that closes a
cycle. The call that `quote` makes to itself is followed only then, which adds an
entry for the same node. -/
theorem reports_mono_lender :
    Reports { movedAmounts with depth := 2, oncePerNode := true } lender
        (lenderGraph.insert ⟨⟨0⟩, ⟨0⟩, ⟨1⟩⟩).influence ⟨0⟩ ⟨0⟩
      ∧ (entriesOn { movedAmounts with depth := 1, oncePerNode := false } lender
          lenderGraph.influence ⟨0⟩).Sublist
        (entriesOn { movedAmounts with depth := 2, oncePerNode := false } lender
          (lenderGraph.insert ⟨⟨0⟩, ⟨0⟩, ⟨1⟩⟩).influence ⟨0⟩)
      ∧ (entriesOn { movedAmounts with depth := 1, oncePerNode := false } lender
          lenderGraph.influence ⟨0⟩).length = 1
      ∧ (entriesOn { movedAmounts with depth := 2, oncePerNode := false } lender
          (lenderGraph.insert ⟨⟨0⟩, ⟨0⟩, ⟨1⟩⟩).influence ⟨0⟩).length = 2 := by
  obtain ⟨hnodes, hentries⟩ := reports_mono movedAmounts lender built_lenderGraph
    (built_lenderGraph.insert ⟨⟨0⟩, ⟨0⟩, ⟨1⟩⟩) (by decide) (by decide : 1 ≤ 2) ⟨0⟩
  have hreport : (reportOn { movedAmounts with depth := 1, oncePerNode := true } lender
      lenderGraph.influence ⟨0⟩).map ContractReport.nodes = some [⟨0⟩] := by decide
  obtain ⟨r, hr, hone⟩ := Option.map_eq_some_iff.mp hreport
  have hreported : Reports { movedAmounts with depth := 1, oncePerNode := true } lender
      lenderGraph.influence ⟨0⟩ ⟨0⟩ := ⟨r, hr, by rw [hone]; exact List.mem_singleton_self _⟩
  exact ⟨hnodes true ⟨0⟩ hreported, hentries, by decide, by decide⟩

end Detector

end PriceTaint
