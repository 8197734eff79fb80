/-
What a session reports.

Each scanner of a session has its part in the report, and the parts have nothing to do
with each other: a scanner that does not take part, or whose scan fails, has the empty
part, and of every other one the findings that clear the least confidence are kept. The
report is the ranking of the parts in the order of the scanners. From this everything else
follows without a look at how the session runs: a scanner with an empty part can stand
anywhere, and a higher least confidence only leaves more findings out.
-/
import PriceTaint.Proofs.Scan.Ranking
import PriceTaint.Scan.Session

set_option autoImplicit false

namespace PriceTaint

/-! ## Who takes part, and what is shown -/

namespace Settings

/-- The scanner is on the list of those that take part, if there is one. -/
def Selects (s : Settings) (scannerId : String) : Prop := ∀ ids ∈ s.enabled, scannerId ∈ ids

/-- The confidence is the least one or higher, if there is a least one. -/
def Clears (s : Settings) (c : Confidence) : Prop := ∀ least ∈ s.minConfidence, least.rank ≤ c.rank

instance (s : Settings) (scannerId : String) : Decidable (s.Selects scannerId) :=
  inferInstanceAs (Decidable (∀ ids ∈ s.enabled, scannerId ∈ ids))

instance (s : Settings) (c : Confidence) : Decidable (s.Clears c) :=
  inferInstanceAs (Decidable (∀ least ∈ s.minConfidence, least.rank ≤ c.rank))

theorem enables_eq (s : Settings) (scannerId : String) :
    s.enables scannerId = decide (s.Selects scannerId) := by
  rw [Bool.eq_iff_iff, decide_eq_true_iff, enables, Selects]
  cases s.enabled with
  | none => simp
  | some ids => simp

theorem shows_eq (s : Settings) (c : Confidence) : s.shows c = decide (s.Clears c) := by
  rw [Bool.eq_iff_iff, decide_eq_true_iff, shows, Clears]
  cases s.minConfidence with
  | none => simp
  | some least => simp

/-- The part of a scanner in the report. -/
def partOf (s : Settings) (subject : Subject) (x : Scanner) : List Finding :=
  if s.Selects x.id then ((x.scan subject).getD []).filter fun f => s.Clears f.confidence else []

theorem partOf_of_selects {s : Settings} {x : Scanner} (h : s.Selects x.id) (subject : Subject) :
    s.partOf subject x = ((x.scan subject).getD []).filter fun f => s.Clears f.confidence :=
  if_pos h

theorem partOf_congr (s : Settings) {subject subject' : Subject} {x : Scanner}
    (h : x.scan subject' = x.scan subject) : s.partOf subject' x = s.partOf subject x := by
  rw [partOf, partOf, h]

/-- A scanner that fails, or does not take part, has the empty part. -/
theorem partOf_eq_nil {s : Settings} {subject : Subject} {x : Scanner}
    (h : x.scan subject = none ∨ ¬ s.Selects x.id) : s.partOf subject x = [] := by
  rw [partOf]
  rcases h with hfails | hnot
  · rw [hfails, Option.getD_none, List.filter_nil, ite_self]
  · rw [if_neg hnot]

/-- The second least confidence is no lower than the first; having none is lowest. -/
inductive Raises : (old new : Option Confidence) → Prop where
  | ofNone (new : Option Confidence) : Raises none new
  | ofSome {least least' : Confidence} (h : least.rank ≤ least'.rank) :
      Raises (some least) (some least')

/-- What clears a raised confidence has cleared the old one. -/
theorem Raises.clears {s : Settings} {new : Option Confidence} (h : Raises s.minConfidence new)
    {c : Confidence} (hc : { s with minConfidence := new }.Clears c) : s.Clears c := by
  intro least hleast
  rw [Option.mem_def.mp hleast] at h
  cases h with
  | @ofSome _ least' hle => exact Nat.le_trans hle (hc least' rfl)

/-- Under a raised least confidence a part loses what does not clear it, and no more. -/
theorem Raises.partOf_eq {s : Settings} {new : Option Confidence} (h : Raises s.minConfidence new)
    (subject : Subject) (x : Scanner) :
    { s with minConfidence := new }.partOf subject x
      = (s.partOf subject x).filter fun f =>
          { s with minConfidence := new }.Clears f.confidence := by
  -- who takes part is a matter of another setting
  have hselects : { s with minConfidence := new }.Selects x.id ↔ s.Selects x.id := Iff.rfl
  by_cases hin : s.Selects x.id
  · rw [partOf_of_selects hin, partOf_of_selects (hselects.mpr hin), List.filter_filter]
    refine List.filter_congr fun f _ => ?_
    rw [Bool.eq_iff_iff, Bool.and_eq_true, decide_eq_true_iff, decide_eq_true_iff]
    exact ⟨fun hf => ⟨hf, h.clears hf⟩, And.left⟩
  · rw [partOf_eq_nil (.inr hin), partOf_eq_nil (.inr (mt hselects.mp hin)), List.filter_nil]

end Settings

/-! ## The report of a session -/

namespace Session

/-- The parts of all scanners, in the order of the scanners. -/
def kept (s : Session) (subject : Subject) : List Finding :=
  s.scanners.flatMap (s.settings.partOf subject)

/-- Side by side the scanners find what they find one after the other, in the same order. -/
theorem found_eq (s : Session) (subject : Subject) :
    s.found subject = (s.selected.filterMap fun x => x.scan subject).flatten := by
  rw [found, filterMap_id_inParallel, ite_self]

/-- What is left of everything found is what the scanners contribute one by one. -/
theorem filter_found (s : Session) (subject : Subject) :
    (s.found subject).filter (fun f => s.settings.shows f.confidence) = s.kept subject := by
  rw [found_eq]
  obtain ⟨settings, scanners⟩ := s
  simp only [selected, kept, settings.enables_eq, settings.shows_eq]
  induction scanners with
  | nil => rfl
  | cons x scanners ih =>
    rw [List.flatMap_cons, ← ih]
    -- `x` may be left out, fail or find something; only in the last case is there a part
    by_cases hin : settings.Selects x.id
    · rw [List.filter_cons_of_pos (by rwa [decide_eq_true_iff]), Settings.partOf_of_selects hin]
      cases hscan : x.scan subject with
      | none =>
        rw [List.filterMap_cons_none (f := fun y : Scanner => y.scan subject) hscan,
          Option.getD_none, List.filter_nil, List.nil_append]
      | some fs =>
        rw [List.filterMap_cons_some (f := fun y : Scanner => y.scan subject) hscan,
          List.flatten_cons, List.filter_append, Option.getD_some]
    · rw [List.filter_cons_of_neg (by rwa [decide_eq_true_iff]), Settings.partOf_eq_nil (.inr hin),
        List.nil_append]

theorem run_eq (s : Session) (subject : Subject) :
    s.run subject = ScanReport.ofFindings (s.kept subject) := by
  rw [run, s.filter_found subject]

/-- A scanner with the empty part changes nothing, wherever it stands. -/
theorem kept_insert (settings : Settings) {subject : Subject} {x : Scanner}
    (hx : x.scan subject = none ∨ ¬ settings.Selects x.id) (before after : List Scanner) :
    kept ⟨settings, before ++ x :: after⟩ subject = kept ⟨settings, before ++ after⟩ subject := by
  simp only [kept, List.flatMap_append, List.flatMap_cons, Settings.partOf_eq_nil hx,
    List.nil_append]

/-- A raised least confidence leaves out what does not clear it, as long as the scanners
find the same. -/
theorem kept_raised {s : Session} {subject subject' : Subject} {new : Option Confidence}
    (h : Settings.Raises s.settings.minConfidence new)
    (hsame : ∀ x ∈ s.scanners, x.scan subject' = x.scan subject) :
    { s with settings := { s.settings with minConfidence := new } }.kept subject'
      = (s.kept subject).filter fun f =>
          { s.settings with minConfidence := new }.Clears f.confidence := by
  rw [kept, kept, List.filter_flatMap]
  refine List.flatMap_congr fun x hx => ?_
  rw [h.partOf_eq, Settings.partOf_congr _ (hsame x hx)]

/-- **The report of a session.** It ranks the findings that clear the least confidence, of
the scanners that take part and do not fail; scanners that fail or do not take part leave
no trace; a raised least confidence leaves findings out and moves none, as long as the
scanners find the same; and every finding is counted once, under its severity. -/
theorem run_ranks_kept (s : Session) (subject : Subject) :
    RankingOf (s.kept subject) (s.run subject).findings
      ∧ (∀ before x after, s.scanners = before ++ after →
          x.scan subject = none ∨ ¬ s.settings.Selects x.id →
            ({ s with scanners := before ++ x :: after }.run subject).findings
              = (s.run subject).findings)
      ∧ (∀ new subject', Settings.Raises s.settings.minConfidence new →
          (∀ x ∈ s.scanners, x.scan subject' = x.scan subject) →
            List.Sublist
              (run { s with settings := { s.settings with minConfidence := new } }
                subject').findings
              (s.run subject).findings)
      ∧ (∀ severity, (s.run subject).count.of severity
          = (s.run subject).findings.countP fun f => f.severity = severity)
      ∧ (s.run subject).count.total = (s.run subject).findings.length := by
  refine ⟨?_, ?_, ?_, ?_, ?_⟩
  · rw [s.run_eq subject]
    exact ScanReport.rankingOf_ofFindings _
  · intro before x after hscanners hx
    obtain ⟨settings, scanners⟩ := s
    subst hscanners
    rw [run_eq, run_eq, kept_insert settings hx]
  · intro new subject' hraises hsame
    rw [run_eq, run_eq, kept_raised hraises hsame, ScanReport.findings_ofFindings_filter]
    exact List.filter_sublist
  · exact (s.run subject).of_count
  · exact (s.run subject).total_count

/-- A scanner that finds the same whatever it looks at, or always fails. -/
def steady (id : String) (found : Option (List Finding)) : Scanner where
  id := id
  name := id
  severity := .low
  confidence := .low
  scan := fun _ => found

def faint : Finding := .make "first" .low .low "faint" ""

def strong : Finding := .make "first" .high .high "strong" ""

/-- Found in this order, the two change places, for the second has the higher priority. -/
theorem rankingOf_faint_strong : RankingOf [faint, strong] [strong, faint] := by
  refine ⟨.swap faint strong [], List.pairwise_pair.mpr (by decide), fun k => ?_⟩
  by_cases hk : faint.priority = k
  · subst hk
    decide
  · have hnone : ofPriority k [faint] = [] := ofPriority_cons_of_ne hk []
    calc ofPriority k ([strong] ++ [faint])
      _ = ofPriority k [strong] ++ ofPriority k [faint] := List.filter_append _ _
      _ = ofPriority k [strong] := by rw [hnone, List.append_nil]
      _ = ofPriority k [faint, strong] := (ofPriority_cons_of_ne hk [strong]).symm

/-- The higher priority comes first, a scanner that fails leaves no trace, and a raised
least confidence leaves findings out. -/
theorem run_ranks_kept_faint :
    let subject : Subject := ⟨{}, fun _ _ _ => false, {}⟩
    let s : Session := ⟨{}, [steady "first" (some [faint, strong])]⟩
    (s.run subject).findings = [strong, faint]
      ∧ (run ⟨{}, [steady "broken" none, steady "first" (some [faint, strong])]⟩ subject).findings
          = (s.run subject).findings
      ∧ List.Sublist (run { s with settings := { minConfidence := some .high } } subject).findings
          (s.run subject).findings
      ∧ (s.run subject).count.of .high = 1
      ∧ (s.run subject).count.total = 2 := by
  intro subject s
  obtain ⟨hranking, hinsert, hraised, hcount, htotal⟩ := run_ranks_kept s subject
  have hfindings : (s.run subject).findings = [strong, faint] :=
    hranking.unique rankingOf_faint_strong
  have hhigh := hcount .high
  rw [hfindings] at hhigh htotal
  exact ⟨hfindings, hinsert [] _ _ rfl (.inl rfl), hraised _ _ (.ofNone _) fun _ _ => rfl,
    hhigh, htotal⟩

end Session

end PriceTaint
