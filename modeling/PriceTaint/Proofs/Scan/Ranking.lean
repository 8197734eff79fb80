/-
The order of findings in a report.

A ranking of a list of findings has the same findings with the higher priorities first,
and for every priority it has the findings of that priority in the order in which they
were found. There is exactly one such ranking, and a report is it. That settles every
question about the order: to show that a list is the report on some findings, it is
enough to check the conditions of a ranking, whatever the sort does.

The use made of it is that ranking commutes with leaving findings out. The sort is never
opened for that: a ranking from which findings are left out is a ranking of what remains.
-/
import Mathlib.Data.List.Basic
import PriceTaint.Scan.Report

set_option autoImplicit false

namespace PriceTaint

/-! ## Rankings -/

/-- Higher priorities come first. -/
def Descending (fs : List Finding) : Prop := fs.Pairwise fun a b => b.priority ≤ a.priority

/-- The findings of one priority, in order. -/
def ofPriority (k : Nat) (fs : List Finding) : List Finding := fs.filter fun f => f.priority = k

/-- `ranked` has the findings of `found`, the higher priorities first, and findings of one
priority in the order in which they stand there. -/
structure RankingOf (found ranked : List Finding) : Prop where
  perm : ranked.Perm found
  descending : Descending ranked
  stable : ∀ k, ofPriority k ranked = ofPriority k found

theorem mem_ofPriority_iff (k : Nat) (fs : List Finding) (f : Finding) :
    f ∈ ofPriority k fs ↔ f ∈ fs ∧ f.priority = k := by
  rw [ofPriority, List.mem_filter, decide_eq_true_iff]

theorem ofPriority_cons_self (f : Finding) (fs : List Finding) :
    ofPriority f.priority (f :: fs) = f :: ofPriority f.priority fs :=
  List.filter_cons_of_pos (decide_eq_true rfl)

theorem ofPriority_cons_of_ne {k : Nat} {f : Finding} (h : f.priority ≠ k) (fs : List Finding) :
    ofPriority k (f :: fs) = ofPriority k fs :=
  List.filter_cons_of_neg (by rwa [decide_eq_true_iff])

/-- The first finding of a descending list has the highest priority. -/
theorem Descending.priority_le {x f : Finding} {fs : List Finding} (h : Descending (x :: fs))
    (hf : f ∈ x :: fs) : f.priority ≤ x.priority := by
  rcases List.mem_cons.mp hf with rfl | hrest
  · exact Nat.le_refl _
  · exact (List.pairwise_cons.mp h).1 f hrest

/-- Findings of one priority descend. -/
theorem descending_of_priority_eq {k : Nat} {fs : List Finding} (h : ∀ f ∈ fs, f.priority = k) :
    Descending fs := by
  refine List.pairwise_of_forall_mem_list fun a ha b hb => ?_
  exact Nat.le_of_eq ((h b hb).trans (h a ha).symm)

theorem mem_of_ofPriority_eq {xs ys : List Finding} (h : ∀ k, ofPriority k xs = ofPriority k ys)
    {f : Finding} (hf : f ∈ xs) : f ∈ ys := by
  have hmem := (mem_ofPriority_iff f.priority xs f).mpr ⟨hf, rfl⟩
  rw [h] at hmem
  exact ((mem_ofPriority_iff f.priority ys f).mp hmem).1

/-- Descending lists that agree on every priority are equal. -/
theorem Descending.eq_of_ofPriority_eq {xs ys : List Finding} (hxs : Descending xs)
    (hys : Descending ys) (h : ∀ k, ofPriority k xs = ofPriority k ys) : xs = ys := by
  induction xs generalizing ys with
  | nil =>
    refine (List.eq_nil_iff_forall_not_mem.mpr fun f hf => ?_).symm
    exact List.not_mem_nil (mem_of_ofPriority_eq (fun k => (h k).symm) hf)
  | cons x xs ih =>
    cases ys with
    | nil => exact absurd (mem_of_ofPriority_eq h List.mem_cons_self) List.not_mem_nil
    | cons y ys =>
      have hpriority : x.priority = y.priority := by
        apply Nat.le_antisymm
        · exact hys.priority_le (mem_of_ofPriority_eq h List.mem_cons_self)
        · exact hxs.priority_le (mem_of_ofPriority_eq (fun k => (h k).symm) List.mem_cons_self)
      -- both heads are the first finding of their common priority
      have hhead := h x.priority
      rw [ofPriority_cons_self, hpriority, ofPriority_cons_self] at hhead
      obtain ⟨rfl, hrest⟩ := List.cons.inj hhead
      have htails : ∀ k, ofPriority k xs = ofPriority k ys := by
        intro k
        by_cases hk : x.priority = k
        · rw [← hk]
          exact hrest
        · have hsame := h k
          rwa [ofPriority_cons_of_ne hk, ofPriority_cons_of_ne hk] at hsame
      rw [ih (List.Pairwise.of_cons hxs) (List.Pairwise.of_cons hys) htails]

namespace RankingOf

variable {found ranked ranked' : List Finding}

/-- There is one ranking only. -/
theorem unique (h : RankingOf found ranked) (h' : RankingOf found ranked') : ranked = ranked' :=
  h.descending.eq_of_ofPriority_eq h'.descending fun k => (h.stable k).trans (h'.stable k).symm

/-- What remains of a ranking is a ranking of what remains. -/
theorem filter (h : RankingOf found ranked) (keep : Finding → Bool) :
    RankingOf (found.filter keep) (ranked.filter keep) where
  perm := h.perm.filter keep
  descending := h.descending.filter keep
  stable k := by
    have hswap : ∀ fs, ofPriority k (fs.filter keep) = (ofPriority k fs).filter keep := fun fs =>
      List.filter_comm _ _ fs
    rw [hswap, hswap, h.stable k]

end RankingOf

/-! ## Reports -/

namespace ScanReport

/-- A report is the ranking of the findings it is made from. -/
theorem rankingOf_ofFindings (fs : List Finding) : RankingOf fs (ofFindings fs).findings := by
  have htrans : ∀ a b c : Finding, decide (b.priority ≤ a.priority) = true →
      decide (c.priority ≤ b.priority) = true → decide (c.priority ≤ a.priority) = true := by
    intro a b c hab hbc
    rw [decide_eq_true_iff] at hab hbc ⊢
    exact Nat.le_trans hbc hab
  have htotal : ∀ a b : Finding,
      (decide (b.priority ≤ a.priority) || decide (a.priority ≤ b.priority)) = true := by
    intro a b
    rw [Bool.or_eq_true, decide_eq_true_iff, decide_eq_true_iff]
    exact Nat.le_total _ _
  have hperm : (ofFindings fs).findings.Perm fs := List.mergeSort_perm fs _
  refine ⟨hperm, ?_, fun k => ?_⟩
  · refine (List.pairwise_mergeSort htrans htotal fs).imp fun {a b} hab => ?_
    exact of_decide_eq_true hab
  · -- findings of one priority are in order already, so the sort keeps them as a sublist
    have hone : ∀ f ∈ ofPriority k fs, f.priority = k := fun f hf =>
      ((mem_ofPriority_iff k fs f).mp hf).2
    have hordered := (descending_of_priority_eq hone).imp fun hle => decide_eq_true hle
    have hkept : (ofPriority k fs).Sublist (ofFindings fs).findings :=
      List.sublist_mergeSort htrans htotal hordered List.filter_sublist
    have hself : ofPriority k (ofPriority k fs) = ofPriority k fs :=
      List.filter_eq_self.mpr fun f hf => decide_eq_true (hone f hf)
    have hsub : (ofPriority k fs).Sublist (ofPriority k (ofFindings fs).findings) := by
      rw [← hself]
      exact hkept.filter _
    exact (hsub.eq_of_length (hperm.filter _).length_eq.symm).symm

/-- Findings that descend in priority are reported as they stand. -/
theorem findings_ofFindings_of_descending {fs : List Finding} (h : Descending fs) :
    (ofFindings fs).findings = fs :=
  (rankingOf_ofFindings fs).unique ⟨.refl fs, h, fun _ => rfl⟩

/-- Leaving findings out before the ranking or after it is the same. -/
theorem findings_ofFindings_filter (keep : Finding → Bool) (fs : List Finding) :
    (ofFindings (fs.filter keep)).findings = (ofFindings fs).findings.filter keep :=
  (rankingOf_ofFindings _).unique ((rankingOf_ofFindings fs).filter keep)

end ScanReport

/-! ## Counting -/

/-- The number of findings of a severity. -/
def SeverityCount.of (c : SeverityCount) : Severity → Nat
  | .critical => c.critical
  | .high => c.high
  | .medium => c.medium
  | .low => c.low
  | .informational => c.informational

namespace ScanReport

theorem of_count (r : ScanReport) (severity : Severity) :
    r.count.of severity = r.findings.countP fun f => f.severity = severity := by
  cases severity <;> exact List.countP_congr fun f _ => by rw [beq_iff_eq, decide_eq_true_iff]

/-- Every finding is counted under one severity. -/
theorem total_count (r : ScanReport) : r.count.total = r.findings.length := by
  obtain ⟨fs⟩ := r
  induction fs with
  | nil => rfl
  | cons f fs ih =>
    simp only [SeverityCount.total, count, countOf, List.countP_cons, List.length_cons] at ih ⊢
    cases f.severity <;> simp <;> omega

end ScanReport

end PriceTaint
