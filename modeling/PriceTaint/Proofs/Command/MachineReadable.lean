/-
When the output of a scan can be read by a machine.

A scan that is asked for JSON prints one value: the findings of a document as an array, or
those of a directory as an object with a member for each document that has any. Written
findings are read back as they were, for all that a loaded document says fits into the
format; so whoever parses the output has the result of the scan.

This holds as long as nothing else is printed. But with `--verbose` the output starts with
a line that says what is scanned, and a directory without documents is reported by a
sentence, in every format. Neither of these starts as a JSON text does. So there is no
third possibility: the output is the result, or it is no JSON at all.
-/
import PriceTaint.Proofs.Command.Directory
import PriceTaint.Proofs.Finding.Format
import PriceTaint.Proofs.Taint.Resolution

set_option autoImplicit false

namespace PriceTaint

open Json (Legible)
open Detector (lenderDocument)

/-! ## What scans find can be stored -/

/-- A finding on a program whose handles are words points to nodes that are words. -/
theorem Detector.storable_finding {d : Detector} {p : Program} {influence : Influence}
    {c : ContractId} {r : ContractReport} (hp : p.Closed) (hwords : p.WordSized)
    (hr : d.reportOn p influence c = some r) : (d.finding p r).Storable where
  score := ⟨d.profile.confidence, rfl⟩
  nodes l hl := by
    obtain ⟨e, he, rfl⟩ := List.mem_map.mp hl
    obtain ⟨contract, -, -, -, hresolved⟩ := exists_resolved_of_reportOn hp hr
    obtain ⟨node, hplace⟩ := (hresolved e he).located
    -- the node is listed by its function, and what a function lists are words
    obtain ⟨function, hfun, hlisted⟩ := hplace.listed
    have hmem : function ∈ p.functions.toList :=
      Array.mem_toList_iff.mpr (Array.mem_of_getElem? hfun)
    exact (hwords.functions function hmem).nodes _ hlisted

namespace Command

/-- All scanners of a command are detectors. -/
theorem exists_detector_of_mem_session {choice : DetectorChoice} {settings : Settings} {x : Scanner}
    (hx : x ∈ (session choice settings).scanners) : ∃ d : Detector, x = d.toScanner := by
  cases choice with
  | high => exact ⟨_, List.mem_singleton.mp hx⟩
  | info => exact ⟨_, List.mem_singleton.mp hx⟩
  | all =>
    rw [session, Catalogue.all_standard] at hx
    rcases List.mem_pair.mp hx with rfl | rfl
    · exact ⟨_, rfl⟩
    · exact ⟨_, rfl⟩

theorem storable_of_mem_run {choice : DetectorChoice} {settings : Settings} (subject : Subject)
    (hp : subject.program.Closed) (hwords : subject.program.WordSized) {f : Finding}
    (hf : f ∈ ((session choice settings).run subject).findings) : f.Storable := by
  rw [Session.run_eq, (ScanReport.rankingOf_ofFindings _).perm.mem_iff, Session.kept,
    List.mem_flatMap] at hf
  obtain ⟨x, hx, hf⟩ := hf
  obtain ⟨d, rfl⟩ := exists_detector_of_mem_session hx
  rw [Detector.partOf_toScanner] at hf
  split at hf
  · obtain ⟨r, hr, rfl⟩ := List.mem_map.mp hf
    exact Detector.storable_finding hp hwords ((Detector.mem_reports_iff _ _ _ r).mp hr)
  · exact absurd hf List.not_mem_nil

theorem exists_document_of_scanDocument {disk : Disk} {s : Session} {path : String}
    {r : ScanReport} (h : scanDocument disk s path = .ok r) :
    ∃ text d, Document.parse text = .ok d ∧ s.run (.ofDocument d s.settings) = r := by
  rw [scanDocument, loadDocument] at h
  split at h
  · cases h
  · next text hread =>
    split at h
    · cases h
    · next d hparse => exact ⟨text, d, hparse, Except.ok.inj h⟩

/-- Whatever a document says, the findings of its scan can be stored. -/
theorem storable_of_scanDocument {disk : Disk} {choice : DetectorChoice} {settings : Settings}
    {path : String} {r : ScanReport}
    (h : scanDocument disk (session choice settings) path = .ok r) :
    ∀ f ∈ r.findings, f.Storable := by
  obtain ⟨text, d, hparse, hrun⟩ := exists_document_of_scanDocument h
  obtain ⟨hstorable, hvalid⟩ := Document.storable_of_parse hparse
  intro f hf
  rw [← hrun] at hf
  have hclosed : d.program.Closed :=
    Program.closed_of_validate (Document.program_validate hvalid)
  exact storable_of_mem_run (.ofDocument d (session choice settings).settings) hclosed
    hstorable.words.program hf

/-! ## Reading the output back -/

/-- The findings that an object has for each of its members. -/
def directoryOfJson? : Json → Option Print.DirectoryFindings
  | .object members => members.mapM fun m => (Finding.listOfJson? m.2).map (m.1, ·)
  | _ => none

/-- A printed report is one value, and its findings are read from it. -/
theorem parse?_report {fs : List Finding} (h : ∀ f ∈ fs, f.Storable) :
    ∃ v, Json.parse? (Print.line (ScanReport.json ⟨fs⟩)) = some v
      ∧ Finding.listOfJson? v = some fs :=
  ⟨_, Json.parse?_pretty_append ((Finding.recovers_list.legible h).mono (by decide)) "\n"
    (List.forall_mem_singleton.mpr rfl), Finding.recovers_list.reads h⟩

/-- So are the findings of a printed directory. -/
theorem parse?_directory {all : Print.DirectoryFindings}
    (h : ∀ e ∈ all, ∀ f ∈ e.2, f.Storable) :
    ∃ v, Json.parse? (Print.directoryJson all) = some v ∧ directoryOfJson? v = some all := by
  have hlegible : Legible 5 (.object (all.map fun e => (e.1, Finding.listToJson e.2))) := by
    refine .object fun m hm => ?_
    obtain ⟨e, he, rfl⟩ := List.mem_map.mp hm
    exact Finding.recovers_list.legible (h e he)
  refine ⟨_, Json.parse?_pretty_append (hlegible.mono (by decide)) "\n"
    (List.forall_mem_singleton.mpr rfl), ?_⟩
  refine List.mapM_map_eq_some fun e he => ?_
  rw [Finding.recovers_list.reads (h e he), Option.map_some]

/-- A text whose first character starts no token is no JSON. -/
theorem parse?_append_of_start {front : String} {c : Char} {cs : List Char}
    (hfront : front.toList = c :: cs) (hc : Token.start [] c = none) (rest : String) :
    Json.parse? (front ++ rest) = none := by
  rw [Json.parse?, String.toList_append, hfront, List.cons_append, Token.scan, Token.Lexer.run]
  simp only [Token.Lexer.step, hc, Option.bind_none]

/-! ## What is printed -/

section Printed

variable {env : Surroundings} {o : ScanOptions} {s : Session}

/-- The output for a document is the report, after what `--verbose` adds. -/
theorem output_scanFile (hjson : o.format = .json) (hok : (scanFile env s o).failure = none) :
    ∃ r, scanDocument env.disk s o.input = .ok r
      ∧ (scanFile env s o).output
          = (if o.verbose then Print.line ("🔍 Scanning: " ++ o.input) else "")
            ++ Print.line r.json := by
  rw [scanFile, Transcript.after] at hok ⊢
  cases hscan : scanDocument env.disk s o.input with
  | error f =>
    rw [hscan] at hok
    cases hok
  | ok r =>
    refine ⟨r, rfl, ?_⟩
    simp only [hjson]

/-- The output for a directory is the object of its findings, after what `--verbose` adds,
unless there is no document. -/
theorem output_scanDirectory (hjson : o.format = .json)
    (hok : (scanDirectory env s o).failure = none) :
    ∃ paths, documentsBelow env.disk o.input = .ok paths
      ∧ (scanDirectory env s o).output
          = (if o.verbose then Print.line ("🔍 Scanning directory: " ++ o.input) else "")
            ++ if paths = [] then Print.line ("⚠️  No program documents found in " ++ o.input)
              else
                (if o.verbose then
                  Print.line ("📁 Found " ++ toString paths.length ++ " program documents")
                else "")
                ++ Print.directoryJson (scanDocuments env.disk s paths) := by
  rw [scanDirectory, Transcript.after] at hok ⊢
  cases hpaths : documentsBelow env.disk o.input with
  | error f =>
    rw [hpaths] at hok
    cases hok
  | ok paths =>
    refine ⟨paths, rfl, ?_⟩
    cases paths with
    | nil => rfl
    | cons path paths =>
      rw [if_neg (List.cons_ne_nil _ _)]
      simp only [scanPaths, Transcript.after, hjson]

/-- The value tells what the scan has found: it is the array of the findings of a document,
or an object with the findings of those documents below a directory that have any. -/
inductive Tells (env : Surroundings) (o : ScanOptions) : Json → Prop where
  | document {settings : Settings} {r : ScanReport} {v : Json}
      (hsettings : settingsFor env.disk o = .ok settings)
      (hfile : env.disk.isDirectory o.input = false)
      (hscan : scanDocument env.disk (session o.detector settings) o.input = .ok r)
      (hvalue : Finding.listOfJson? v = some r.findings) : Tells env o v
  | directory {settings : Settings} {paths : List String} {all : Print.DirectoryFindings}
      {v : Json} (hsettings : settingsFor env.disk o = .ok settings)
      (hdirectory : env.disk.isDirectory o.input = true)
      (hpaths : documentsBelow env.disk o.input = .ok paths)
      (hvalue : directoryOfJson? v = some all)
      (hdistinct : (all.map Prod.fst).Nodup)
      (hentries : ∀ p fs, (p, fs) ∈ all ↔ p ∈ paths
        ∧ ∃ r, scanDocument env.disk (session o.detector settings) p = .ok r
          ∧ r.findings = fs ∧ fs ≠ []) : Tells env o v

/-- Nothing is printed beside the result: more was not asked for, and the input is no
directory without documents. -/
def PrintsOnlyResult (env : Surroundings) (o : ScanOptions) : Prop :=
  o.verbose = false
    ∧ ¬ (env.disk.isDirectory o.input = true ∧ documentsBelow env.disk o.input = .ok [])

/-- Whoever reads the output learns the result of the scan or, if something else was printed,
that it is no JSON. -/
def Conclusive (env : Surroundings) (o : ScanOptions) (output : String) : Prop :=
  (PrintsOnlyResult env o → ∃ v, Json.parse? output = some v ∧ Tells env o v)
    ∧ (¬ PrintsOnlyResult env o → Json.parse? output = none)

theorem conclusive_scanFile (hjson : o.format = .json) {settings : Settings}
    (hsettings : settingsFor env.disk o = .ok settings)
    (hfile : env.disk.isDirectory o.input = false)
    (hok : (scanFile env (session o.detector settings) o).failure = none) :
    Conclusive env o (scanFile env (session o.detector settings) o).output := by
  obtain ⟨r, hscan, houtput⟩ := output_scanFile hjson hok
  rw [houtput]
  constructor
  · rintro ⟨hquiet, -⟩
    obtain ⟨v, hparse, hvalue⟩ := parse?_report (storable_of_scanDocument hscan)
    rw [hquiet, if_neg Bool.false_ne_true, String.empty_append]
    exact ⟨v, hparse, .document hsettings hfile hscan hvalue⟩
  · intro hmore
    have hverbose : o.verbose = true := by
      by_contra hquiet
      refine hmore ⟨Bool.eq_false_of_not_eq_true hquiet, fun h => ?_⟩
      exact Bool.false_ne_true (hfile.symm.trans h.1)
    -- the output starts with the magnifying glass, whatever the name of the input
    rw [if_pos hverbose, Print.line, String.append_assoc, String.append_assoc]
    exact parse?_append_of_start rfl (by decide) _

theorem conclusive_scanDirectory (hjson : o.format = .json) {settings : Settings}
    (hsettings : settingsFor env.disk o = .ok settings)
    (hdirectory : env.disk.isDirectory o.input = true)
    (hok : (scanDirectory env (session o.detector settings) o).failure = none) :
    Conclusive env o (scanDirectory env (session o.detector settings) o).output := by
  obtain ⟨paths, hpaths, houtput⟩ := output_scanDirectory hjson hok
  rw [houtput]
  constructor
  · rintro ⟨hquiet, hsome⟩
    have hne : paths ≠ [] := by
      rintro rfl
      exact hsome ⟨hdirectory, hpaths⟩
    have hentries : ∀ p fs, (p, fs) ∈ scanDocuments env.disk (session o.detector settings) paths
        ↔ p ∈ paths ∧ ∃ r, scanDocument env.disk (session o.detector settings) p = .ok r
          ∧ r.findings = fs ∧ fs ≠ [] := by
      intro p fs
      rw [mem_scanDocuments_iff, entryOf_eq_some_iff]
    -- every entry comes from the scan of a document, so it can be stored
    obtain ⟨v, hparse, hvalue⟩ := parse?_directory fun e he => by
      obtain ⟨-, r, hscan, hfs, -⟩ := (hentries e.1 e.2).mp he
      exact hfs ▸ storable_of_scanDocument hscan
    rw [hquiet, if_neg Bool.false_ne_true, if_neg Bool.false_ne_true, if_neg hne,
      String.empty_append, String.empty_append]
    exact ⟨v, hparse, .directory hsettings hdirectory hpaths hvalue (nodup_scanDocuments _ _ _)
      hentries⟩
  · intro hmore
    by_cases hverbose : o.verbose = true
    · rw [if_pos hverbose, Print.line, String.append_assoc, String.append_assoc]
      exact parse?_append_of_start rfl (by decide) _
    · -- no more was asked for, so there is no document
      have hnone : paths = [] := by
        by_contra hne
        refine hmore ⟨Bool.eq_false_of_not_eq_true hverbose, fun h => hne ?_⟩
        exact Except.ok.inj (hpaths.symm.trans h.2)
      rw [if_neg hverbose, if_pos hnone, String.empty_append, Print.line, String.append_assoc]
      exact parse?_append_of_start rfl (by decide) _

theorem conclusive_scan (hjson : o.format = .json) (hok : (scan env o).failure = none) :
    Conclusive env o (scan env o).output := by
  rw [scan] at hok ⊢
  cases hsettings : settingsFor env.disk o with
  | error f =>
    rw [hsettings] at hok
    cases hok
  | ok settings =>
    simp only [hsettings] at hok ⊢
    by_cases hdirectory : env.disk.isDirectory o.input = true
    · rw [if_pos hdirectory] at hok ⊢
      exact conclusive_scanDirectory hjson hsettings hdirectory hok
    · rw [if_neg hdirectory] at hok ⊢
      exact conclusive_scanFile hjson hsettings (Bool.eq_false_of_not_eq_true hdirectory) hok

end Printed

/-- A run that ends with code zero has not failed, and its output is what it has printed. -/
theorem run_of_exit_eq_zero {env : Surroundings} {args : List String} {i : Invocation}
    (hargs : Invocation.ofArguments args = .ok i)
    (hexit : (Outcome.ofArguments env args).exit = 0) :
    (i.run env).failure = none
      ∧ (Outcome.ofArguments env args).output = (i.run env).output := by
  rw [Outcome.ofArguments, hargs] at hexit ⊢
  dsimp only at hexit ⊢
  cases hfailure : (i.run env).failure with
  | none => exact ⟨rfl, rfl⟩
  | some f =>
    rw [hfailure] at hexit
    cases hexit

/-- **When the output of a scan is machine-readable.** If a scan that is asked for JSON
succeeds and prints nothing beside its result, then its output is one JSON text, and what
is read from it are the findings: those of the document in order, or those of every
document below the directory that has any. If it prints anything else, its output is no
JSON text at all. -/
theorem readable_output_of_scan {env : Surroundings} {args : List String} {o : ScanOptions}
    (hargs : Invocation.ofArguments args = .ok (.scanRun o)) (hjson : o.format = .json)
    (hexit : (Outcome.ofArguments env args).exit = 0) :
    (PrintsOnlyResult env o →
        ∃ v, Json.parse? (Outcome.ofArguments env args).output = some v ∧ Tells env o v)
      ∧ (¬ PrintsOnlyResult env o →
        Json.parse? (Outcome.ofArguments env args).output = none) := by
  obtain ⟨hok, houtput⟩ := run_of_exit_eq_zero hargs hexit
  rw [houtput]
  exact conclusive_scan hjson hok

/-- The arguments of a scan of one input, as JSON. -/
def jsonScan (input : String) : List String := ["scan", "run", "--input", input, "--format", "json"]

/-- The scan of a document that can be loaded ends with code zero. -/
theorem exit_of_scanDocument {env : Surroundings} {args : List String} {input : String}
    {r : ScanReport}
    (hargs : Invocation.ofArguments args = .ok (.scanRun ⟨input, .all, .json, none, false⟩))
    (hfile : env.disk.isDirectory input = false)
    (hscan : scanDocument env.disk (session .all {}) input = .ok r) :
    (Outcome.ofArguments env args).exit = 0 := by
  rw [Outcome.ofArguments, hargs]
  simp only [Invocation.run, scan, settingsFor, hfile, Bool.false_eq_true, if_false, scanFile,
    Transcript.after, hscan]

/-- The lender's document is scanned to one JSON text that tells what was found. An empty
directory is scanned as successfully, but its output is no JSON text. -/
theorem readable_output_of_scan_lender :
    let lender : Surroundings := ⟨(docsTree lenderDocument.render.toUTF8 []).disk, false, ""⟩
    let empty : Surroundings := ⟨(FileTree.directory [("d", .empty)]).disk, false, ""⟩
    (∃ v, Json.parse? (Outcome.ofArguments lender (jsonScan "docs/lender.json")).output = some v
        ∧ Tells lender ⟨"docs/lender.json", .all, .json, none, false⟩ v)
      ∧ (Outcome.ofArguments lender (jsonScan "docs/lender.json")).exit = 0
      ∧ Json.parse? (Outcome.ofArguments empty (jsonScan "d")).output = none
      ∧ (Outcome.ofArguments empty (jsonScan "d")).exit = 0 := by
  intro lender empty
  have hnamed : (docsTree lenderDocument.render.toUTF8 []).WellNamed :=
    wellNamed_docsTree (List.forall_mem_nil _) (List.pairwise_singleton _ _)
      (List.forall_mem_nil _)
  have hargs : Invocation.ofArguments (jsonScan "docs/lender.json")
      = .ok (.scanRun ⟨"docs/lender.json", .all, .json, none, false⟩) := by decide
  have hfile : lender.disk.isDirectory "docs/lender.json" = false := rfl
  have hexit := exit_of_scanDocument hargs hfile
    (scanDocument_docsTree storable_lenderDocument (by decide) hnamed _)
  have hargs' : Invocation.ofArguments (jsonScan "d")
      = .ok (.scanRun ⟨"d", .all, .json, none, false⟩) := by decide
  have hexit' : (Outcome.ofArguments empty (jsonScan "d")).exit = 0 := by decide
  refine ⟨(readable_output_of_scan hargs rfl hexit).1 ⟨rfl, ?_⟩, hexit,
    (readable_output_of_scan hargs' rfl hexit').2 ?_, hexit'⟩
  · exact fun h => Bool.false_ne_true (hfile.symm.trans h.1)
  · exact fun h => h.2 ⟨rfl, rfl⟩

end Command

end PriceTaint
