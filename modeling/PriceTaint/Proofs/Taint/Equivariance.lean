/-
Handles count by identity only.

Rearranging the arenas of a valid document changes the number of every part, and with it
every handle. The report on a contract under its new name is then the old report under
the new names, entry by entry and fragment by fragment, and it reads the same. Nothing a
detector does can therefore depend on which of two parts has the smaller number: ties are
broken by the order of the lists in the program, and those do not change.

The document is taken to be valid because the comparison of embeddings is made for closed
programs only. A handle that dangles would go on dangling, since a rearrangement moves the
parts of an arena among themselves.
-/
import Mathlib.Data.Fin.Rev
import PriceTaint.Proofs.Program.Rearrangement
import PriceTaint.Proofs.Taint.Embedding

set_option autoImplicit false

namespace PriceTaint

theorem ContractReport.nodes_rename (ρ : Renaming) (r : ContractReport) :
    (r.rename ρ).nodes = r.nodes.map ρ.on := by
  have hentries : (r.rename ρ).entries = r.entries.map (Entry.rename ρ) := rfl
  rw [nodes, nodes, hentries, List.map_map, List.map_map]
  exact List.map_congr_left fun e _ => e.node_rename

namespace Detector

/-- **Equivariance.** The report on a contract of a rearranged document is the report on
it before, with every handle renamed, and its text is the same. -/
theorem reportOn_rearrange (d : Detector) {doc : Document} (hdoc : doc.validate = .ok ())
    (hg : doc.influence.Built) (σ : Rearrangement doc.program) (c : ContractId) :
    d.reportOn (doc.rearrange σ).program (doc.rearrange σ).influence.influence (σ.names.on c)
        = (d.reportOn doc.program doc.influence.influence c).map (ContractReport.rename σ.names)
      ∧ ∀ r, d.reportOn doc.program doc.influence.influence c = some r →
          (r.rename σ.names).render (doc.rearrange σ).program = r.render doc.program := by
  have hclosed := Program.closed_of_validate (Document.program_validate hdoc)
  have hembeds := Program.embeds_rearrange σ
  constructor
  · cases hc : doc.program.contractAt? c with
    | none =>
      have hmoved : (doc.rearrange σ).program.contractAt? (σ.names.on c) = none :=
        Program.contractAt?_rearrange_eq_none σ hc
      rw [reportOn, reportOn, hc, hmoved]
      rfl
    | some contract =>
      refine d.reportOn_embeds hembeds hclosed hc fun f _ risk v => ?_
      exact hg.influence_rename σ.names risk v f
  · intro r hr
    exact d.render_embeds hembeds hclosed hr

/-- The document of the lender. -/
def lenderDocument : Document := ⟨lender, lenderGraph⟩

/-- Every arena backwards. -/
def backwards (p : Program) : Rearrangement p := ⟨fun _ => Fin.revPerm⟩

/-- Backwards, the two functions of the lender change places, and so do its first and its
last node. The report names the other node and says the same. -/
theorem reportOn_rearrange_lender :
    ∃ r, movedAmounts.reportOn lender lenderGraph.influence ⟨0⟩ = some r
      ∧ r.nodes = [⟨0⟩]
      ∧ movedAmounts.reportOn (lenderDocument.rearrange (backwards lender)).program
          (lenderDocument.rearrange (backwards lender)).influence.influence ⟨0⟩
            = some (r.rename (backwards lender).names)
      ∧ (r.rename (backwards lender).names).nodes = [⟨2⟩]
      ∧ (r.rename (backwards lender).names).render
          (lenderDocument.rearrange (backwards lender)).program = r.render lender := by
  have hvalid : lenderDocument.validate = .ok () := by decide
  obtain ⟨hreport, hrender⟩ :=
    reportOn_rearrange movedAmounts hvalid built_lenderGraph (backwards lender) ⟨0⟩
  have hnodes : (movedAmounts.reportOn lender lenderGraph.influence ⟨0⟩).map ContractReport.nodes
      = some [⟨0⟩] := by decide
  obtain ⟨r, hr, hone⟩ := Option.map_eq_some_iff.mp hnodes
  have hmoved : (r.rename (backwards lender).names).nodes = [⟨2⟩] := by
    rw [ContractReport.nodes_rename, hone]
    decide
  refine ⟨r, hr, hone, ?_, hmoved, hrender r hr⟩
  have hsame : (movedAmounts.reportOn lender lenderGraph.influence ⟨0⟩).map
      (ContractReport.rename (backwards lender).names)
        = some (r.rename (backwards lender).names) := by
    rw [hr, Option.map_some]
  exact hreport.trans hsame

end Detector

end PriceTaint
