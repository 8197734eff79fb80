/-
What the two detectors report, from end to end.

Every stage of a detector has its own description in the modules before: chains of
calls for the walk, reachability for the influence, combinations for the flows, and
the nodes that survive for the report. Here they are put together, for all
programs, consistent or not, and for any depth.
-/
import PriceTaint.Proofs.Influence.Closure
import PriceTaint.Proofs.Taint.Flow

set_option autoImplicit false

namespace PriceTaint

namespace Lens

/-- For moved amounts, a read is admitted unless it asks about the contract's own
holdings. -/
theorem admits_movedAmounts_iff (p : Program) (c : Call) :
    movedAmounts.admits p c = true ↔ c.readsOwnBalance = false := by
  rw [admits]
  cases c.readsOwnBalance <;> simp [movedAmounts]

/-- For returned values, a read of a balance must also ask about one holder, which
can be manipulated. -/
theorem admits_returnedValues_iff (p : Program) (c : Call) :
    returnedValues.admits p c = true
      ↔ c.readsOwnBalance = false
        ∧ (p.callMatches c .balances = true →
            c.arguments.length = 1 ∧ p.asksPoolHolder c = true) := by
  rw [admits]
  cases c.readsOwnBalance <;> cases p.callMatches c .balances <;> simp [returnedValues]

end Lens

namespace Detector

/-- A node that is in the body of `f` and can be reported, taken apart. -/
theorem reportable_in_body_iff (p : Program) (f : FunctionId) (n : NodeId) (node : Node) :
    p.isReportable n = true ∧ (n, node) ∈ p.bodyOf f
      ↔ p.nodeAt? n = some node ∧ (∀ name, .eventCall name ∉ node.operations)
        ∧ ∃ function, p.functionAt? f = some function ∧ n ∈ function.nodes := by
  rw [p.isReportable_iff, p.mem_bodyOf_iff]
  constructor
  · rintro ⟨⟨node', hnode', hevent⟩, function, hf, hmem, hnode⟩
    rw [hnode] at hnode'
    cases hnode'
    exact ⟨hnode, hevent, function, hf, hmem⟩
  · rintro ⟨hnode, hevent, function, hf, hmem⟩
    exact ⟨⟨node, hnode, hevent⟩, function, hf, hmem, hnode⟩

/-- What a detector reports over the influence of a graph, whatever its lens. -/
theorem reports_graph_iff (d : Detector) (p : Program) {g : InfluenceGraph} (hg : g.Built)
    (c : ContractId) (n : NodeId) :
    d.Reports p g.influence c n
      ↔ ∃ contract node f function,
          p.contractAt? c = some contract ∧ p.exemption? c = none
          ∧ p.nodeAt? n = some node ∧ (∀ name, .eventCall name ∉ node.operations)
          ∧ f ∈ contract.functions ∧ p.functionAt? f = some function ∧ n ∈ function.nodes
          ∧ ¬ Lens.SnapshotTaken p node
          ∧ (∃ read, d.lens.Makes p d.depth node read)
          ∧ ((node.shape = .assignment
                ∧ ∃ w ∈ node.written, ∃ r, Analysis.AtSink p f r d.lens.sink ∧ g.Reaches f r w)
            ∨ (d.lens.needsInfluence = false ∧ node.willReturn = true
                ∧ ¬ Text.Contained "require" node.text ∧ node.calls ≠ [])) := by
  rw [reports_iff]
  simp only [Analysis.exists_entry_at_iff, Analysis.mem_riskVariables_iff,
    Analysis.returnsCalls_iff, analysis, hg.influence_iff, Analysis.footprint,
    Lens.mem_footprint_reads_iff, Lens.mem_footprint_written_iff]
  constructor
  · rintro ⟨contract, hc, hex, hrep, f, hf, node, hbody, ⟨read, hsnap, hread⟩, hroute⟩
    obtain ⟨hnode, hevent, function, hfun, hmem⟩ :=
      (reportable_in_body_iff p f n node).mp ⟨hrep, hbody⟩
    refine ⟨contract, node, f, function, hc, hex, hnode, hevent, hf, hfun, hmem, hsnap,
      ⟨read, hread⟩, ?_⟩
    rcases hroute with ⟨w, ⟨-, hshape, hw⟩, r, hr, hreach⟩ | hret
    · exact .inl ⟨hshape, w, hw, r, hr, hreach⟩
    · exact .inr hret
  · rintro ⟨contract, node, f, function, hc, hex, hnode, hevent, hf, hfun, hmem, hsnap,
      ⟨read, hread⟩, hroute⟩
    obtain ⟨hrep, hbody⟩ :=
      (reportable_in_body_iff p f n node).mpr ⟨hnode, hevent, function, hfun, hmem⟩
    refine ⟨contract, hc, hex, hrep, f, hf, node, hbody, ⟨read, hsnap, hread⟩, ?_⟩
    rcases hroute with ⟨hshape, w, hw, r, hr, hreach⟩ | hret
    · exact .inl ⟨w, ⟨hsnap, hshape, hw⟩, r, hr, hreach⟩
    · exact .inr hret

/-! ## Amounts moved -/

/-- A lender that quotes through a function which reads the reserves and, in the same
statement, calls itself again. -/
def lender : Program where
  contracts := #[{ name := "Lender", functions := [⟨0⟩, ⟨1⟩] }]
  functions := #[
    { name := "borrow", signature := "borrow()", contract := ⟨0⟩, nodes := [⟨0⟩, ⟨1⟩],
      returns := [⟨1⟩] },
    { name := "quote", signature := "quote()", contract := ⟨0⟩, nodes := [⟨2⟩] }]
  nodes := #[
    { owner := ⟨0⟩, shape := .assignment, calls := [⟨0⟩], written := [⟨0⟩] },
    { owner := ⟨0⟩, shape := .call, calls := [⟨1⟩] },
    { owner := ⟨1⟩, shape := .ret, calls := [⟨2⟩, ⟨0⟩], willReturn := true }]
  calls := #[
    { callee := .resolved (.function ⟨1⟩), text := "quote()" },
    { callee := .member "transfer", text := "token.transfer(amount)",
      arguments := [{ text := "amount", operand := .variable ⟨1⟩ }] },
    { callee := .member "getReserves", text := "pair.getReserves()" }]
  vars := #[{ name := "reserve", storage := .local }, { name := "amount", storage := .local }]

/-- In `borrow`, the amount is computed from the reserve. -/
def lenderGraph : InfluenceGraph := InfluenceGraph.empty.insert ⟨⟨0⟩, ⟨1⟩, ⟨0⟩⟩

theorem built_lenderGraph : lenderGraph.Built := .insert .empty _

theorem lenderGraph_reaches : lenderGraph.Reaches ⟨0⟩ ⟨1⟩ ⟨0⟩ := by
  refine Relation.ReflTransGen.single ?_
  rw [InfluenceGraph.Step, lenderGraph, InfluenceGraph.toList_insert]
  · exact List.mem_append_right _ (List.mem_singleton_self _)
  · rw [InfluenceGraph.direct_empty]
    exact List.not_mem_nil

/-- **Moved amounts.** The detector reports a node exactly if the contract is
analysed, the node stands in a function of it, emits no event, assigns and takes
no snapshot, a variable passed to a fund movement of that function reaches one
that the node assigns, and a chain of calls from the node ends in a read of a spot
price. -/
theorem movedAmounts_reports_iff (p : Program) {g : InfluenceGraph} (hg : g.Built) (depth : Nat)
    (oncePerNode : Bool) (c : ContractId) (n : NodeId) :
    Reports { movedAmounts with depth := depth, oncePerNode := oncePerNode } p g.influence c n
      ↔ ∃ contract node f function,
          p.contractAt? c = some contract ∧ p.exemption? c = none
          ∧ p.nodeAt? n = some node ∧ (∀ name, .eventCall name ∉ node.operations)
          ∧ f ∈ contract.functions ∧ p.functionAt? f = some function ∧ n ∈ function.nodes
          ∧ node.shape = .assignment
          ∧ (∀ v ∈ node.written, ∀ x, p.variableAt? v = some x →
              ¬ Text.Mentioned "before" x.name ∧ ¬ Text.Mentioned "after" x.name)
          ∧ (∃ w ∈ node.written, ∃ r, Analysis.AmountMoved p f r ∧ g.Reaches f r w)
          ∧ ∃ k id call, k ≤ depth ∧ p.CallChain .spotPrices node.calls k id
              ∧ p.callAt? id = some call ∧ p.dispatch call ≠ .unseen
              ∧ p.callMatches call .spotPrices = true ∧ call.readsOwnBalance = false := by
  rw [reports_graph_iff _ p hg]
  constructor
  · rintro ⟨contract, node, f, function, hc, hex, hnode, hevent, hf, hfun, hmem, hsnap,
      ⟨read, hread⟩, ⟨hshape, w, hw, r, hr, hreach⟩ | ⟨hneeds, -⟩⟩
    · refine ⟨contract, node, f, function, hc, hex, hnode, hevent, hf, hfun, hmem, hshape, ?_,
        ⟨w, hw, r, hr, hreach⟩, ?_⟩
      · intro v hv x hx
        rw [← not_or]
        intro hname
        exact hsnap ⟨hshape, v, hv, x, hx, hname⟩
      · cases read with
        | builtin name => exact absurd hread.1 Bool.false_ne_true
        | call id =>
          obtain ⟨k, hk, hchain, hends⟩ := hread
          obtain ⟨call, hcall, hseen, hmatch, hadmit⟩ := (Lens.isRead_iff _ p id).mp hends
          exact ⟨k, id, call, hk, hchain, hcall, hseen, hmatch,
            (Lens.admits_movedAmounts_iff p call).mp hadmit⟩
    · exact absurd hneeds.symm Bool.false_ne_true
  · rintro ⟨contract, node, f, function, hc, hex, hnode, hevent, hf, hfun, hmem, hshape, hsnap,
      hroute, k, id, call, hk, hchain, hcall, hseen, hmatch, hown⟩
    have hadmit := (Lens.admits_movedAmounts_iff p call).mpr hown
    have hends := (Lens.movedAmounts.isRead_iff p id).mpr ⟨call, hcall, hseen, hmatch, hadmit⟩
    refine ⟨contract, node, f, function, hc, hex, hnode, hevent, hf, hfun, hmem, ?_,
      ⟨.call id, k, hk, hchain, hends⟩, .inl ⟨hshape, hroute⟩⟩
    rintro ⟨-, v, hv, x, hx, hname⟩
    exact not_or.mpr (hsnap v hv x hx) hname

/-- The assignment in `borrow` is reported at depth one: its read stands behind one
call. -/
theorem movedAmounts_reports_lender :
    Reports { movedAmounts with depth := 1, oncePerNode := true } lender lenderGraph.influence
      ⟨0⟩ ⟨0⟩ := by
  refine (movedAmounts_reports_iff lender built_lenderGraph 1 true ⟨0⟩ ⟨0⟩).mpr
    ⟨_, _, ⟨0⟩, _, rfl, by decide, rfl, fun _ => List.not_mem_nil, by decide, rfl, by decide,
      rfl, ?_,
      ⟨⟨0⟩, by decide, ⟨1⟩, ?_, lenderGraph_reaches⟩,
      1, ⟨2⟩, _, Nat.le_refl 1, ?_, rfl, by decide, by decide, by decide⟩
  · intro v hv x hx
    obtain rfl : v = ⟨0⟩ := List.mem_singleton.mp hv
    cases hx
    rw [← not_or, ← Lens.isSnapshotName_iff]
    decide
  · have hbody := (lender.mem_bodyOf_iff ⟨0⟩ ⟨1⟩ _).mpr ⟨_, rfl, by decide, rfl⟩
    exact ⟨⟨1⟩, _, ⟨1⟩, _, _, hbody, List.mem_singleton_self _, rfl, by decide,
      List.mem_singleton_self _, rfl, rfl⟩
  · have hfollows := (lender.follows_iff .spotPrices ⟨0⟩ ⟨1⟩).mpr ⟨_, _, rfl, rfl, by decide⟩
    exact .follow (List.mem_singleton_self _) hfollows (.last (by decide))

/-! ## Values returned -/

/-- **Returned values.** The detector reports a node exactly if the contract is
analysed, the node stands in a function of it, emits no event, takes no snapshot
and reads a spot price or a balance, and either returns the outcome of its calls
without a guard, or assigns to a variable that a returned one reaches. -/
theorem returnedValues_reports_iff (p : Program) {g : InfluenceGraph} (hg : g.Built) (depth : Nat)
    (oncePerNode : Bool) (c : ContractId) (n : NodeId) :
    Reports { returnedValues with depth := depth, oncePerNode := oncePerNode } p g.influence c n
      ↔ ∃ contract node f function,
          p.contractAt? c = some contract ∧ p.exemption? c = none
          ∧ p.nodeAt? n = some node ∧ (∀ name, .eventCall name ∉ node.operations)
          ∧ f ∈ contract.functions ∧ p.functionAt? f = some function ∧ n ∈ function.nodes
          ∧ ¬ (node.shape = .assignment ∧ ∃ v ∈ node.written, ∃ x, p.variableAt? v = some x
              ∧ (Text.Mentioned "before" x.name ∨ Text.Mentioned "after" x.name))
          ∧ ((∃ k id call, k ≤ depth ∧ p.CallChain .pricesAndBalances node.calls k id
                ∧ p.callAt? id = some call ∧ p.dispatch call ≠ .unseen
                ∧ p.callMatches call .pricesAndBalances = true ∧ call.readsOwnBalance = false
                ∧ (p.callMatches call .balances = true →
                    call.arguments.length = 1 ∧ p.asksPoolHolder call = true))
            ∨ (.builtin "balance(address)" ∈ node.internalCalls
                ∧ ¬ Text.Contained "address(this)" node.text))
          ∧ ((node.willReturn = true ∧ ¬ Text.Contained "require" node.text ∧ node.calls ≠ [])
            ∨ (node.shape = .assignment
                ∧ ∃ w ∈ node.written, ∃ r, Analysis.ValueReturned p f r ∧ g.Reaches f r w)) := by
  rw [reports_graph_iff _ p hg]
  constructor
  · rintro ⟨contract, node, f, function, hc, hex, hnode, hevent, hf, hfun, hmem, hsnap,
      ⟨read, hread⟩, hroute⟩
    refine ⟨contract, node, f, function, hc, hex, hnode, hevent, hf, hfun, hmem, hsnap, ?_, ?_⟩
    · cases read with
      | builtin name => exact .inr ⟨hread.2.2.1, hread.2.2.2⟩
      | call id =>
        obtain ⟨k, hk, hchain, hends⟩ := hread
        obtain ⟨call, hcall, hseen, hmatch, hadmit⟩ := (Lens.isRead_iff _ p id).mp hends
        obtain ⟨hown, hholder⟩ := (Lens.admits_returnedValues_iff p call).mp hadmit
        exact .inl ⟨k, id, call, hk, hchain, hcall, hseen, hmatch, hown, hholder⟩
    · rcases hroute with hassign | ⟨-, hret⟩
      · exact .inr hassign
      · exact .inl hret
  · rintro ⟨contract, node, f, function, hc, hex, hnode, hevent, hf, hfun, hmem, hsnap, hread,
      hroute⟩
    refine ⟨contract, node, f, function, hc, hex, hnode, hevent, hf, hfun, hmem, hsnap, ?_, ?_⟩
    · rcases hread with ⟨k, id, call, hk, hchain, hcall, hseen, hmatch, hown, hholder⟩ | hbuiltin
      · have hadmit := (Lens.admits_returnedValues_iff p call).mpr ⟨hown, hholder⟩
        exact ⟨.call id, k, hk, hchain,
          (Lens.returnedValues.isRead_iff p id).mpr ⟨call, hcall, hseen, hmatch, hadmit⟩⟩
      · exact ⟨.builtin nativeBalanceName, rfl, rfl, hbuiltin⟩
    · rcases hroute with hret | hassign
      · exact .inr ⟨rfl, hret⟩
      · exact .inl hassign

/-- Both routes at depth one: the statement that returns the quote, and the
assignment that reaches the returned amount. -/
theorem returnedValues_reports_lender :
    Reports { returnedValues with depth := 1, oncePerNode := true } lender lenderGraph.influence
        ⟨0⟩ ⟨2⟩
      ∧ Reports { returnedValues with depth := 1, oncePerNode := true } lender
          lenderGraph.influence ⟨0⟩ ⟨0⟩ := by
  constructor
  · refine (returnedValues_reports_iff lender built_lenderGraph 1 true ⟨0⟩ ⟨2⟩).mpr
      ⟨_, _, ⟨1⟩, _, rfl, by decide, rfl, fun _ => List.not_mem_nil, by decide, rfl, by decide,
        (fun h => by cases h.1),
        .inl ⟨0, ⟨2⟩, _, Nat.zero_le 1, .last (by decide), rfl, by decide, by decide, by decide,
          by decide⟩,
        .inl ⟨rfl, ?_, by decide⟩⟩
    rw [← Text.contains_iff]
    decide
  · refine (returnedValues_reports_iff lender built_lenderGraph 1 true ⟨0⟩ ⟨0⟩).mpr
      ⟨_, _, ⟨0⟩, _, rfl, by decide, rfl, fun _ => List.not_mem_nil, by decide, rfl, by decide, ?_,
        .inl ⟨1, ⟨2⟩, _, Nat.le_refl 1, ?_, rfl, by decide, by decide, by decide, by decide⟩,
        .inr ⟨rfl, ⟨0⟩, by decide, ⟨1⟩, .inr ⟨_, rfl, by decide⟩, lenderGraph_reaches⟩⟩
    · rintro ⟨-, v, hv, x, hx, hname⟩
      obtain rfl : v = ⟨0⟩ := List.mem_singleton.mp hv
      cases hx
      rw [← Lens.isSnapshotName_iff] at hname
      revert hname
      decide
    · have hfollows :=
        (lender.follows_iff .pricesAndBalances ⟨0⟩ ⟨1⟩).mpr ⟨_, _, rfl, rfl, by decide⟩
      exact .follow (List.mem_singleton_self _) hfollows (.last (by decide))

end Detector

end PriceTaint
