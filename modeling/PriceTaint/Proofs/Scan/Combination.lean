/-
Both detectors at once.

All findings of one detector have the priority of its profile, so in a session of its own
they stay in the order in which it makes them: by contract, and one for each contract that
it reports on. The priority of moved amounts is above that of returned values. A session
with both detectors has them in the order of their ids, which puts the findings on moved
amounts first, and so the ranking has nothing to move: the report is the report of one
detector followed by the report of the other.
-/
import PriceTaint.Command.Run
import PriceTaint.Proofs.Scan.Session
import PriceTaint.Proofs.Taint.Flow

set_option autoImplicit false

namespace PriceTaint

/-! ## The reports of a detector -/

theorem Program.mem_contractIds_iff (p : Program) (c : ContractId) :
    c ∈ p.contractIds ↔ ∃ contract, p.contractAt? c = some contract := by
  rw [contractIds, List.mem_map, ← Option.isSome_iff_exists, contractAt?, isSome_getElem?]
  constructor
  · rintro ⟨i, hi, rfl⟩
    exact List.mem_range.mp hi
  · intro hlt
    exact ⟨c.index, List.mem_range.mpr hlt, rfl⟩

namespace Detector

/-- The detector as it runs under given settings. -/
def under (d : Detector) (settings : Settings) : Detector :=
  { d with depth := settings.depth, oncePerNode := settings.oncePerNode }

/-- The priority of every finding of a detector. -/
def priority (d : Detector) : Nat := d.profile.severity.weight * d.profile.confidence.multiplier

section Reports

variable (d : Detector) (p : Program) (influence : Influence)

/-- The reports of a detector are its reports on the single contracts. -/
theorem mem_reports_iff (r : ContractReport) :
    r ∈ d.reports p influence ↔ d.reportOn p influence r.contract = some r := by
  rw [reports, List.mem_filterMap]
  constructor
  · rintro ⟨c, -, hr⟩
    obtain ⟨-, -, -, rfl, -⟩ := reportOn_eq_some hr
    exact hr
  · intro hr
    obtain ⟨contract, hc, -⟩ := reportOn_eq_some hr
    exact ⟨r.contract, (p.mem_contractIds_iff _).mpr ⟨contract, hc⟩, hr⟩

/-- They come by contract, and no contract comes twice. -/
theorem pairwise_reports :
    (d.reports p influence).Pairwise fun r r' => r.contract.index < r'.contract.index := by
  have hids : p.contractIds.Pairwise fun a b => a.index < b.index :=
    List.pairwise_map.mpr List.pairwise_lt_range
  refine hids.filterMap _ fun c c' hlt r hr r' hr' => ?_
  obtain ⟨-, -, -, rfl, -⟩ := reportOn_eq_some hr
  obtain ⟨-, -, -, rfl, -⟩ := reportOn_eq_some hr'
  exact hlt

/-- Contracts that are looked at side by side are reported on in their order all the same. -/
theorem reportsInParallel_eq : d.reportsInParallel p influence = d.reports p influence :=
  filterMap_id_inParallel (d.reportOn p influence) p.contractIds

end Reports

/-! ## The part of a detector in a report -/

/-- The findings are made from reports on contracts in ascending order, and there is one
for every report of the detector, unless the settings leave the detector out. -/
def FindsByContract (d : Detector) (settings : Settings) (subject : Subject)
    (fs : List Finding) : Prop :=
  ∃ reports : List ContractReport,
    fs = reports.map (d.finding subject.program)
      ∧ (reports.Pairwise fun r r' => r.contract.index < r'.contract.index)
      ∧ ∀ r, r ∈ reports ↔ settings.Selects d.profile.id ∧ settings.Clears d.profile.confidence
          ∧ d.reportOn subject.program subject.influence r.contract = some r

section Part

variable (d : Detector) (settings : Settings) (subject : Subject)

/-- A scan makes a finding from every report, in the order of the reports. -/
theorem scan_toScanner :
    d.toScanner.scan subject
      = some (((d.under subject.settings).reports subject.program subject.influence).map
          ((d.under subject.settings).finding subject.program)) := by
  unfold toScanner under
  dsimp only
  rw [reportsInParallel_eq, ite_self]

/-- A detector contributes all of its findings or none, for all have one confidence. -/
theorem partOf_toScanner :
    settings.partOf subject d.toScanner
      = if settings.Selects d.profile.id ∧ settings.Clears d.profile.confidence then
          ((d.under subject.settings).reports subject.program subject.influence).map
            ((d.under subject.settings).finding subject.program)
        else [] := by
  by_cases hselects : settings.Selects d.profile.id
  · rw [Settings.partOf_of_selects (x := d.toScanner) hselects]
    -- a finding has the confidence of the profile, whatever the report it is made from
    rw [scan_toScanner, Option.getD_some, List.filter_map]
    by_cases hclears : settings.Clears d.profile.confidence
    · rw [if_pos ⟨hselects, hclears⟩]
      refine congrArg _ (List.filter_eq_self.mpr fun r _ => ?_)
      exact decide_eq_true hclears
    · rw [if_neg fun h => hclears h.2, List.map_eq_nil_iff]
      refine List.filter_eq_nil_iff.mpr fun r _ hr => ?_
      exact hclears (of_decide_eq_true hr)
  · rw [Settings.partOf_eq_nil (x := d.toScanner) (.inr hselects), if_neg fun h => hselects h.1]

theorem priority_of_mem_partOf {f : Finding} (hf : f ∈ settings.partOf subject d.toScanner) :
    f.priority = d.priority := by
  rw [partOf_toScanner] at hf
  split at hf
  · obtain ⟨r, -, rfl⟩ := List.mem_map.mp hf
    rfl
  · exact absurd hf List.not_mem_nil

theorem findsByContract_partOf :
    (d.under subject.settings).FindsByContract settings subject
      (settings.partOf subject d.toScanner) := by
  rw [partOf_toScanner]
  by_cases hin : settings.Selects d.profile.id ∧ settings.Clears d.profile.confidence
  · rw [if_pos hin]
    refine ⟨_, rfl, pairwise_reports _ _ _, fun r => ?_⟩
    rw [mem_reports_iff]
    exact ⟨fun hr => ⟨hin.1, hin.2, hr⟩, fun h => h.2.2⟩
  · rw [if_neg hin]
    refine ⟨[], rfl, .nil, fun r => ?_⟩
    exact ⟨fun hr => absurd hr List.not_mem_nil, fun h => absurd ⟨h.1, h.2.1⟩ hin⟩

end Part

end Detector

/-! ## Sessions of detectors -/

/-- Findings of one priority followed by findings of a lower one. -/
theorem descending_append {xs ys : List Finding} {k l : Nat} (hxs : ∀ f ∈ xs, f.priority = k)
    (hys : ∀ f ∈ ys, f.priority = l) (hle : l ≤ k) : Descending (xs ++ ys) := by
  refine List.pairwise_append.mpr ⟨descending_of_priority_eq hxs, descending_of_priority_eq hys, ?_⟩
  intro a ha b hb
  rw [hxs a ha, hys b hb]
  exact hle

/-- The catalogue lists moved amounts before returned values. -/
theorem Catalogue.all_standard :
    standard.all = [Detector.movedAmounts.toScanner, Detector.returnedValues.toScanner] := rfl

namespace Session

/-- A session with one detector reports its findings in the order it makes them. -/
theorem run_detector (d : Detector) (settings : Settings) (subject : Subject) :
    (run ⟨settings, [d.toScanner]⟩ subject).findings = settings.partOf subject d.toScanner := by
  rw [run_eq, kept, List.flatMap_singleton]
  apply ScanReport.findings_ofFindings_of_descending
  exact descending_of_priority_eq fun f hf => d.priority_of_mem_partOf settings subject hf

/-- So does a session with two, if the first has the higher priority. -/
theorem run_two_detectors {d d' : Detector} (h : d'.priority ≤ d.priority) (settings : Settings)
    (subject : Subject) :
    (run ⟨settings, [d.toScanner, d'.toScanner]⟩ subject).findings
      = settings.partOf subject d.toScanner ++ settings.partOf subject d'.toScanner := by
  rw [run_eq, kept, List.flatMap_cons, List.flatMap_singleton]
  apply ScanReport.findings_ofFindings_of_descending
  exact descending_append (fun f hf => d.priority_of_mem_partOf settings subject hf)
    (fun f hf => d'.priority_of_mem_partOf settings subject hf) h

end Session

namespace Command

/-- **Both detectors at once.** Whatever the settings and the program, the findings of a
scan with all detectors are those of the scan for moved amounts, followed by those of the
scan for returned values; and each of the two has one finding for every contract that the
detector reports on, by ascending contract. -/
theorem run_all_eq_append (settings : Settings) (subject : Subject) :
    ((session .all settings).run subject).findings
        = ((session .high settings).run subject).findings
          ++ ((session .info settings).run subject).findings
      ∧ (Detector.movedAmounts.under subject.settings).FindsByContract settings subject
          ((session .high settings).run subject).findings
      ∧ (Detector.returnedValues.under subject.settings).FindsByContract settings subject
          ((session .info settings).run subject).findings := by
  have hhigh : ((session .high settings).run subject).findings
      = settings.partOf subject Detector.movedAmounts.toScanner := Session.run_detector _ _ _
  have hinfo : ((session .info settings).run subject).findings
      = settings.partOf subject Detector.returnedValues.toScanner := Session.run_detector _ _ _
  have hall : ((session .all settings).run subject).findings
      = settings.partOf subject Detector.movedAmounts.toScanner
        ++ settings.partOf subject Detector.returnedValues.toScanner := by
    rw [session, Catalogue.all_standard]
    exact Session.run_two_detectors (by decide) settings subject
  rw [hall, hhigh, hinfo]
  exact ⟨rfl, Detector.findsByContract_partOf _ _ _, Detector.findsByContract_partOf _ _ _⟩

end Command

end PriceTaint
