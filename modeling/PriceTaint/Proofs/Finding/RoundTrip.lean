/-
A report is read back from its text.

Whoever makes findings starts from one without locations and details and adds to it. A draft
is the record of that: what the finding was made from, and the steps that were taken since.
Findings made in this way can be stored, because the only numbers in them are a score that
comes from a confidence and indices of nodes that are words. No step can spoil this, whatever
stood in the finding before, so no history can.

The text of a report therefore decodes to its findings, in their order. It also tells apart
what looks alike: details that are absent and details that say nothing, an absent snippet and
an empty one.
-/
import PriceTaint.Proofs.Finding.Format
import PriceTaint.Proofs.Scan.Ranking

set_option autoImplicit false

namespace PriceTaint

/-! ## Findings made in steps -/

/-- One step in making a finding. -/
inductive FindingStep where
  | addLocation (l : Location)
  | setLocations (ls : List Location)
  | addContract (name : String)
  | addFunction (name : String)
  | addVariable (name : String)
  | recommend (advice : String)
  | setDetails (details : Details)

namespace FindingStep

/-- Takes a step. -/
def run (f : Finding) : FindingStep → Finding
  | addLocation l => f.addLocation l
  | setLocations ls => f.setLocations ls
  | addContract name => f.addContract name
  | addFunction name => f.addFunction name
  | addVariable name => f.addVariable name
  | recommend advice => f.recommend advice
  | setDetails details => { f with details := some details }

/-- The locations that a step brings. -/
def brings : FindingStep → List Location
  | addLocation l => [l]
  | setLocations ls => ls
  | _ => []

/-- The nodes that a step points to are words. -/
def WordSized (step : FindingStep) : Prop := ∀ l ∈ step.brings, l.node < Numeral.indexLimit

instance (step : FindingStep) : Decidable step.WordSized :=
  inferInstanceAs (Decidable (∀ l ∈ step.brings, l.node < Numeral.indexLimit))

/-- A location that is there after a step was there before, or the step has brought it. -/
theorem mem_locations_run {f : Finding} {step : FindingStep} {l : Location}
    (hl : l ∈ (step.run f).locations) : l ∈ f.locations ∨ l ∈ step.brings := by
  cases step with
  | addLocation l' => exact List.mem_append.mp hl
  | setLocations ls => exact .inr hl
  | _ => exact .inl hl

/-- No step changes the score. -/
theorem score_run (f : Finding) (step : FindingStep) : (step.run f).score = f.score := by
  cases step <;> rfl

theorem storable_run {f : Finding} {step : FindingStep} (hf : f.Storable)
    (hstep : step.WordSized) : (step.run f).Storable where
  score := by
    rw [score_run]
    exact hf.score
  nodes l hl := by
    rcases mem_locations_run hl with hbefore | hbrought
    · exact hf.nodes l hbefore
    · exact hstep l hbrought

end FindingStep

/-- How a finding is made: what it is made from, and the steps taken since. -/
structure FindingDraft where
  scannerId : String
  severity : Severity
  confidence : Confidence
  title : String
  description : String
  steps : List FindingStep := []

namespace FindingDraft

/-- The finding as it is made from the start. -/
def start (d : FindingDraft) : Finding :=
  .make d.scannerId d.severity d.confidence d.title d.description

/-- The finding after all steps. -/
def finding (d : FindingDraft) : Finding := d.steps.foldl FindingStep.run d.start

/-- All nodes that the steps point to are words. -/
def WordSized (d : FindingDraft) : Prop := ∀ step ∈ d.steps, step.WordSized

instance (d : FindingDraft) : Decidable d.WordSized :=
  inferInstanceAs (Decidable (∀ step ∈ d.steps, step.WordSized))

theorem storable_start (d : FindingDraft) : d.start.Storable where
  score := ⟨d.confidence, rfl⟩
  nodes _ hl := absurd hl List.not_mem_nil

theorem storable_foldl {steps : List FindingStep} {f : Finding} (hf : f.Storable)
    (hsteps : ∀ step ∈ steps, step.WordSized) : (steps.foldl FindingStep.run f).Storable := by
  induction steps generalizing f with
  | nil => exact hf
  | cons step steps ih =>
    obtain ⟨hfirst, hrest⟩ := List.forall_mem_cons.mp hsteps
    exact ih (FindingStep.storable_run hf hfirst) hrest

theorem WordSized.storable {d : FindingDraft} (h : d.WordSized) : d.finding.Storable :=
  storable_foldl d.storable_start h

end FindingDraft

/-! ## Reports -/

namespace ScanReport

/-- What can be stored can be reported and read back. -/
theorem parse?_json {r : ScanReport} (h : ∀ f ∈ r.findings, f.Storable) :
    Json.parse? r.json = some (Finding.listToJson r.findings) :=
  Json.parse?_pretty ((Finding.recovers_list.legible h).mono (by decide))

theorem storable_ofFindings {fs : List Finding} (h : ∀ f ∈ fs, f.Storable) :
    ∀ f ∈ (ofFindings fs).findings, f.Storable := fun f hf =>
  h f ((rankingOf_ofFindings fs).perm.mem_iff.mp hf)

/-- **A report is read back.** Whatever findings are made, in whatever steps, the text of the
report on them decodes to the findings of the report: all of them, in their order, with
everything that was added and nothing that was not. -/
theorem findings_read_back (drafts : List FindingDraft) (h : ∀ d ∈ drafts, d.WordSized) :
    (Json.parse? (ofFindings (drafts.map FindingDraft.finding)).json).bind Finding.listOfJson?
      = some (ofFindings (drafts.map FindingDraft.finding)).findings := by
  have hmade : ∀ f ∈ drafts.map FindingDraft.finding, f.Storable := by
    intro f hf
    obtain ⟨d, hd, rfl⟩ := List.mem_map.mp hf
    exact (h d hd).storable
  have hreported := storable_ofFindings hmade
  rw [parse?_json hreported, Option.bind_some]
  exact Finding.recovers_list.reads hreported

/-- Findings that differ only in what is absent and what is empty, and one with odd texts and
the last of all nodes. -/
def alike : List FindingDraft := [
  ⟨"s", .high, .medium, "t", "d", []⟩,
  ⟨"s", .high, .medium, "t", "d", [.setDetails {}]⟩,
  ⟨"s", .high, .medium, "t", "d", [.recommend ""]⟩,
  ⟨"s", .high, .medium, "t", "d", [.setLocations [⟨"C", "f", 0, none⟩, ⟨"C", "f", 0, some ""⟩]]⟩,
  ⟨"\"\\", .high, .medium, "\u0000\n", "é😀",
    [.addLocation ⟨"", "a:b", 18446744073709551615, some "x = \"y\""⟩, .addVariable ""]⟩]

/-- They are read back as the different findings that they are. -/
theorem findings_read_back_alike :
    (∀ d ∈ alike, d.WordSized)
      ∧ (Json.parse? (ofFindings (alike.map FindingDraft.finding)).json).bind Finding.listOfJson?
          = some (alike.map FindingDraft.finding)
      ∧ alike.map (fun d => d.finding.details)
          = [none, some {}, some { recommendation := some "" }, none,
              some { affectedVariables := [""] }]
      ∧ alike.map (fun d => d.finding.locations.map Location.snippet)
          = [[], [], [], [none, some ""], [some "x = \"y\""]] := by
  have hwords : ∀ d ∈ alike, d.WordSized := by decide
  have hpriority : ∀ f ∈ alike.map FindingDraft.finding, f.priority = 500 := by decide
  have hread := findings_read_back alike hwords
  rw [findings_ofFindings_of_descending (descending_of_priority_eq hpriority)] at hread
  exact ⟨hwords, hread, rfl, rfl⟩

end ScanReport

end PriceTaint
