/-
Scanning a directory is scanning its documents one by one.

The findings of a directory are entered document by document. What one document enters
depends on nothing but that document: it is looked up by its own path, and a document that
cannot be loaded, or has no findings, enters nothing. So the order of the documents does
not matter, and a document keeps its entry whatever becomes of the others.

The commands only see a disk. That a walk lists every document of a tree and that reading
finds the file which the walk has shown is the business of the walk.
-/
import Std.Data.TreeMap.Lemmas
import PriceTaint.Command.Run
import PriceTaint.Proofs.Command.Walk
import PriceTaint.Proofs.Program.RoundTrip
import PriceTaint.Proofs.Scan.Combination
import PriceTaint.Proofs.Taint.Equivariance

set_option autoImplicit false

namespace PriceTaint

/-! ## Names of documents -/

namespace Path

end Path

namespace Command

/-! ## The entry of a document -/

section Entries

variable (disk : Disk) (s : Session)

/-- What a document enters among the findings of a directory. -/
def entryOf (path : String) : Option (List Finding) :=
  match scanDocument disk s path with
  | .error _ => none
  | .ok r => if r.isEmpty then none else some r.findings

theorem entryOf_eq_some_iff (path : String) (fs : List Finding) :
    entryOf disk s path = some fs
      ↔ ∃ r, scanDocument disk s path = .ok r ∧ r.findings = fs ∧ fs ≠ [] := by
  rw [entryOf]
  cases scanDocument disk s path with
  | error e => simp
  | ok r =>
    simp only [ScanReport.isEmpty, List.isEmpty_iff, Except.ok.injEq, exists_eq_left']
    by_cases hnone : r.findings = []
    · rw [if_pos hnone]
      exact iff_of_false (Option.some_ne_none fs).symm fun h => h.2 (h.1 ▸ hnone)
    · rw [if_neg hnone, Option.some.injEq]
      exact ⟨fun h => ⟨h, h ▸ hnone⟩, And.left⟩

theorem enterDocument_eq (all : Std.TreeMap String (List Finding) compare) (path : String) :
    enterDocument disk s all path
      = match entryOf disk s path with
        | none => all
        | some fs => all.insert path fs := by
  rw [enterDocument, entryOf]
  cases scanDocument disk s path with
  | error e => rfl
  | ok r =>
    dsimp only
    cases r.isEmpty <;> rfl

/-- One document enters under its own path only. -/
theorem getElem?_enterDocument (all : Std.TreeMap String (List Finding) compare)
    (path p : String) :
    (enterDocument disk s all path)[p]?
      = if path = p then (entryOf disk s p).or all[p]? else all[p]? := by
  rw [enterDocument_eq]
  by_cases hp : path = p
  · subst hp
    rw [if_pos rfl]
    cases entryOf disk s path with
    | none => rfl
    | some fs => exact Std.TreeMap.getElem?_insert_self
  · have hother : compare path p ≠ .eq := mt Std.LawfulEqCmp.compare_eq_iff_eq.mp hp
    rw [if_neg hp]
    cases entryOf disk s path with
    | none => rfl
    | some fs =>
      dsimp only
      rw [Std.TreeMap.getElem?_insert, if_neg hother]

/-- After all documents, a path has the entry of its document if it was among them. -/
theorem getElem?_foldl_enterDocument (paths : List String)
    (all : Std.TreeMap String (List Finding) compare) (p : String) :
    (paths.foldl (enterDocument disk s) all)[p]?
      = if p ∈ paths then (entryOf disk s p).or all[p]? else all[p]? := by
  induction paths generalizing all with
  | nil => rw [if_neg List.not_mem_nil, List.foldl_nil]
  | cons path paths ih =>
    rw [List.foldl_cons, ih, getElem?_enterDocument]
    by_cases hfirst : path = p
    · -- a path that comes again enters the same findings again
      rw [if_pos hfirst, if_pos (List.mem_cons.mpr (.inl hfirst.symm))]
      cases entryOf disk s p <;> simp
    · have hmem : p ∈ path :: paths ↔ p ∈ paths := by
        rw [List.mem_cons, or_iff_right fun heq => hfirst heq.symm]
      rw [if_neg hfirst]
      simp only [hmem]

/-- The findings of some documents are their entries. -/
theorem mem_scanDocuments_iff (paths : List String) (p : String) (fs : List Finding) :
    (p, fs) ∈ scanDocuments disk s paths ↔ p ∈ paths ∧ entryOf disk s p = some fs := by
  rw [scanDocuments, Std.TreeMap.mem_toList_iff_getElem?_eq_some, getElem?_foldl_enterDocument,
    Std.TreeMap.getElem?_emptyc, Option.or_none]
  by_cases hp : p ∈ paths
  · rw [if_pos hp, and_iff_right hp]
  · rw [if_neg hp]
    exact iff_of_false (fun h => by cases h) fun h => hp h.1

/-- Every path stands there once. -/
theorem nodup_scanDocuments (paths : List String) :
    ((scanDocuments disk s paths).map Prod.fst).Nodup := by
  refine List.pairwise_map.mpr ?_
  refine Std.TreeMap.distinct_keys_toList.imp fun {a b} hne heq => ?_
  exact hne (Std.LawfulEqCmp.compare_eq_iff_eq.mpr heq)

end Entries

/-! ## Documents of a tree -/

theorem scanDocument_of_parse {disk : Disk} (s : Session) {path text : String} {d : Document}
    (hread : disk.read path = .ok text) (hparse : Document.parse text = .ok d) :
    scanDocument disk s path = .ok (s.run (.ofDocument d s.settings)) := by
  rw [scanDocument, loadDocument, hread]
  simp only [hparse]
  rfl

section Tree

variable {t t' : FileTree} {directory : String} {paths paths' : List String}

end Tree

/-! ## A directory with a spoilt file -/

theorem text_toUTF8 (s : String) : (FileTree.file s.toUTF8).text = .ok s := by
  have hvalid : String.fromUTF8? s.toUTF8 = some s := dif_pos s.isValidUTF8
  rw [FileTree.text, hvalid]

open Detector (lenderDocument)

theorem storable_lenderDocument : lenderDocument.Storable := by
  have hword : ∀ {kind : Kind} {hs : List (Handle kind)}, (∀ h ∈ hs, h.index < 3) →
      Handle.AllWords hs := fun hlt h hh => (hlt h hh).trans (by decide)
  have hsmall : ∀ {kind : Kind} {n : Nat}, n < 3 → Handle.IsWord (⟨n⟩ : Handle kind) :=
    fun hn => hn.trans (by decide)
  refine ⟨Detector.built_lenderGraph, ⟨?_, ?_, ?_, ?_⟩, ?_⟩
  · exact List.forall_mem_singleton.mpr ⟨hword (by decide), hword (by decide)⟩
  · refine List.forall_mem_cons.mpr ⟨?_, List.forall_mem_singleton.mpr ?_⟩
    all_goals exact ⟨hsmall (by decide), hword (by decide), hword (by decide)⟩
  · refine List.forall_mem_cons.mpr ⟨?_, List.forall_mem_cons.mpr
      ⟨?_, List.forall_mem_singleton.mpr ?_⟩⟩
    all_goals exact ⟨hsmall (by decide), hword (by decide), List.forall_mem_nil _,
      hword (by decide), hword (by decide)⟩
  · refine List.forall_mem_cons.mpr ⟨⟨hsmall (by decide), List.forall_mem_nil _⟩,
      List.forall_mem_cons.mpr ⟨⟨trivial, ?_⟩,
        List.forall_mem_singleton.mpr ⟨trivial, List.forall_mem_nil _⟩⟩⟩
    exact List.forall_mem_singleton.mpr (hsmall (by decide))
  · intro e he
    have hedge : e ∈ [⟨⟨0⟩, ⟨1⟩, ⟨0⟩⟩] := (InfluenceGraph.mem_toList_ofList_iff _ e).mp he
    obtain rfl := List.mem_singleton.mp hedge
    exact ⟨hsmall (by decide), hsmall (by decide), hsmall (by decide)⟩

/-- A directory with a document and further files. -/
def docsTree (bytes : ByteArray) (others : List (String × FileTree)) : FileTree :=
  .directory [("docs", .directory (("lender.json", .file bytes) :: others))]

section Docs

variable {bytes : ByteArray} {others : List (String × FileTree)}

theorem wellNamed_docsTree (hnames : ∀ e ∈ others, Path.IsName e.1)
    (hdistinct : ("lender.json" :: others.map Prod.fst).Nodup)
    (hbelow : ∀ e ∈ others, e.2.WellNamed) : (docsTree bytes others).WellNamed := by
  have hdocs : Path.IsName "docs" := ⟨by decide, by decide, by decide, by decide, by decide⟩
  have hlender : Path.IsName "lender.json" :=
    ⟨by decide, by decide, by decide, by decide, by decide⟩
  refine .directory (List.forall_mem_singleton.mpr hdocs) (List.pairwise_singleton _ _) ?_
  exact List.forall_mem_singleton.mpr
    (.directory (List.forall_mem_cons.mpr ⟨hlender, hnames⟩) hdistinct
      (List.forall_mem_cons.mpr ⟨.file _, hbelow⟩))

theorem showsBelow_docsTree :
    (docsTree bytes others).ShowsBelow "docs" "docs/lender.json" (.file bytes) := by
  have hfind : (docsTree bytes others).find "docs"
      = .ok (.directory (("lender.json", .file bytes) :: others)) := rfl
  exact ⟨_, hfind, .entry List.mem_cons_self (.here _ _)⟩

theorem scanDocument_docsTree {d : Document} (hstorable : d.Storable)
    (hvalid : d.validate = .ok ()) (h : (docsTree d.render.toUTF8 others).WellNamed)
    (s : Session) :
    scanDocument (docsTree d.render.toUTF8 others).disk s "docs/lender.json"
      = .ok (s.run (.ofDocument d s.settings)) := by
  have hread := FileTree.read_of_showsBelow h showsBelow_docsTree (by decide)
  exact scanDocument_of_parse s (hread.trans (text_toUTF8 _))
    (hstorable.parse_render_of_valid hvalid)

end Docs

end Command

end PriceTaint
