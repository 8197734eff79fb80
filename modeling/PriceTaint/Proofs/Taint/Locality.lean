/-
The report on a contract depends on what the contract refers to, and on nothing else.

When a valid program grows, by parts at the ends of its arenas, the reports on the
contracts it had do not change, whatever the new parts are and whether or not they are
valid themselves. Nor does it matter which edges the influence graph gets or loses in
scopes other than the functions of the contract. Functions that are only called from
there are walked through for their reads, but influence is never asked for in them.

Without validity this fails: a handle that points past the end of an arena finds
nothing, and would find something once the arena has grown.
-/
import PriceTaint.Proofs.Taint.Embedding

set_option autoImplicit false

namespace PriceTaint

/-- What is influenced in a scope depends on the edges of that scope. -/
theorem InfluenceGraph.Built.influence_congr {g g' : InfluenceGraph} (hg : g.Built)
    (hg' : g'.Built) {scope : FunctionId} (hstep : ∀ v u, g'.Step scope v u ↔ g.Step scope v u)
    (candidate source : VariableId) :
    g'.influence candidate source scope = g.influence candidate source scope := by
  rw [Bool.eq_iff_iff, hg'.influence_iff, hg.influence_iff]
  constructor
  · exact fun h => h.mono fun v u => (hstep v u).mp
  · exact fun h => h.mono fun v u => (hstep v u).mpr

/-! ## Keeping all names -/

theorem PriceRead.rename_identity (read : PriceRead) : read.rename .identity = read := by
  cases read <;> rfl

theorem Entry.rename_identity (e : Entry) : e.rename .identity = e := by
  cases e with
  | dependent flow =>
    rw [rename, DependentFlow.rename, PriceRead.rename_identity]
    rfl
  | returned flow =>
    rw [rename, ReturnFlow.rename, PriceRead.rename_identity]
    rfl

theorem Fragment.rename_identity (fragment : Fragment) : fragment.rename .identity = fragment := by
  cases fragment <;> rfl

theorem ContractReport.rename_identity (r : ContractReport) : r.rename .identity = r := by
  have hentry : Entry.rename .identity = id := funext Entry.rename_identity
  have hfragment : Fragment.rename .identity = id := funext Fragment.rename_identity
  rw [rename, hentry, hfragment, List.map_id, List.map_id]
  rfl

namespace Detector

/-- **Locality.** A valid program may grow by any parts, and the influence graph may
change outside the functions of a contract: the report on the contract stays the same,
and so do its text and its finding. -/
theorem reportOn_local (d : Detector) {p p' : Program} (hp : p.validate = .ok ())
    (hgrows : p.IsPrefixOf p') {g g' : InfluenceGraph} (hg : g.Built) (hg' : g'.Built)
    {c : ContractId} {contract : Contract} (hc : p.contractAt? c = some contract)
    (hedges : ∀ e : Edge, e.scope ∈ contract.functions → (e ∈ g'.toList ↔ e ∈ g.toList)) :
    d.reportOn p' g'.influence c = d.reportOn p g.influence c
      ∧ ∀ r, d.reportOn p g.influence c = some r →
          r.render p' = r.render p ∧ d.finding p' r = d.finding p r := by
  have hclosed := Program.closed_of_validate hp
  have hembeds := hgrows.embeds
  have hinfl : ∀ f ∈ contract.functions, ∀ risk v,
      g'.influence risk v f = g.influence risk v f := by
    intro f hf risk v
    exact hg.influence_congr hg' (fun v u => hedges ⟨f, v, u⟩ hf) risk v
  refine ⟨?_, fun r hr => ⟨?_, ?_⟩⟩
  · have hreport := d.reportOn_embeds hembeds hclosed hc hinfl
    have hsame : ContractReport.rename .identity = id := funext ContractReport.rename_identity
    rw [hsame, Option.map_id] at hreport
    exact hreport
  · have hrender := d.render_embeds hembeds hclosed hr
    rw [r.rename_identity] at hrender
    exact hrender
  · have hfinding := d.finding_embeds hembeds hclosed hr
    rw [r.rename_identity] at hfinding
    exact hfinding

/-- The lender among parts that refer to nothing, and to parts of the lender. -/
def crowdedLender : Program where
  contracts := lender.contracts.push { name := "Stray", functions := [⟨0⟩, ⟨9⟩] }
  functions := lender.functions.push
    { name := "stray", signature := "stray()", contract := ⟨7⟩, nodes := [⟨0⟩, ⟨8⟩] }
  nodes := lender.nodes.push { owner := ⟨6⟩, shape := .assignment, calls := [⟨2⟩, ⟨5⟩] }
  calls := lender.calls.push { callee := .resolved (.function ⟨9⟩), text := "stray()" }
  vars := lender.vars.push { name := "balanceBefore", storage := .local }

/-- The crowded lender is not valid, and its graph has an edge of its own in the scope
of the stray function. The report on the lender is the one that it has alone. -/
theorem reportOn_local_lender :
    crowdedLender.validate ≠ .ok ()
      ∧ ∃ r, movedAmounts.reportOn lender lenderGraph.influence ⟨0⟩ = some r
          ∧ movedAmounts.reportOn crowdedLender (lenderGraph.insert ⟨⟨2⟩, ⟨0⟩, ⟨1⟩⟩).influence ⟨0⟩
              = some r
          ∧ r.render crowdedLender = r.render lender
          ∧ movedAmounts.finding crowdedLender r = movedAmounts.finding lender r := by
  have hgrows : lender.IsPrefixOf crowdedLender := by
    constructor <;> exact ⟨[_], rfl⟩
  have hc : lender.contractAt? ⟨0⟩ = some { name := "Lender", functions := [⟨0⟩, ⟨1⟩] } := rfl
  have hedges : ∀ e : Edge, e.scope ∈ [(⟨0⟩ : FunctionId), ⟨1⟩] →
      (e ∈ (lenderGraph.insert ⟨⟨2⟩, ⟨0⟩, ⟨1⟩⟩).toList ↔ e ∈ lenderGraph.toList) := by
    intro e he
    rw [InfluenceGraph.toList_insert (by decide), List.mem_append, List.mem_singleton]
    refine or_iff_left ?_
    rintro rfl
    exact absurd he (by decide)
  obtain ⟨hsame, hrest⟩ := reportOn_local movedAmounts (by decide) hgrows built_lenderGraph
    (built_lenderGraph.insert ⟨⟨2⟩, ⟨0⟩, ⟨1⟩⟩) hc hedges
  have hsome : (movedAmounts.reportOn lender lenderGraph.influence ⟨0⟩).isSome = true := by decide
  obtain ⟨r, hr⟩ := Option.isSome_iff_exists.mp hsome
  obtain ⟨hrender, hfinding⟩ := hrest r hr
  exact ⟨by decide, r, hr, hsame.trans hr, hrender, hfinding⟩

end Detector

end PriceTaint
