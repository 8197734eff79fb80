/-
What the catalogue of scanners holds.

A catalogue is made from the empty one or from the one with both detectors, by registering
scanners. Its history is the list of everything that was ever registered, and of each id the
last scanner in it is the one that counts. That is the invariant: looking up an id gives the
last scanner of the history with that id. One more registration changes the answer for its own
id only, on both sides.

All listings of a catalogue go through the same table, so they can be described by the lookup:
they show what it finds, in the order of the bytes of the ids. A scanner that was replaced is
therefore gone from all of them.
-/
import Mathlib.Data.List.Nodup
import PriceTaint.Proofs.Text.ByteOrder
import PriceTaint.Scan.Catalogue

set_option autoImplicit false

namespace PriceTaint

open Text (bytes)

/-! ## Histories -/

/-- The last scanner of a history with a given id. -/
def latest? (history : List Scanner) (id : String) : Option Scanner :=
  (history.filter fun s => s.id = id).getLast?

/-- One more scanner counts for its own id. -/
theorem latest?_concat (history : List Scanner) (s : Scanner) (id : String) :
    latest? (history ++ [s]) id = if s.id = id then some s else latest? history id := by
  rw [latest?, latest?, List.filter_append, List.filter_cons, List.filter_nil]
  by_cases hid : s.id = id
  · rw [if_pos hid, if_pos (decide_eq_true hid), List.getLast?_concat]
  · rw [if_neg hid, if_neg (by rwa [decide_eq_true_iff]), List.append_nil]

theorem id_of_latest? {history : List Scanner} {id : String} {s : Scanner}
    (h : latest? history id = some s) : s.id = id :=
  of_decide_eq_true (List.mem_filter.mp (List.mem_of_getLast? h)).2

theorem isSome_latest?_iff (history : List Scanner) (id : String) :
    (latest? history id).isSome ↔ ∃ s ∈ history, s.id = id := by
  rw [latest?, List.getLast?_isSome]
  constructor
  · intro hne
    obtain ⟨s, hs⟩ := List.exists_mem_of_ne_nil _ hne
    obtain ⟨hmem, hid⟩ := List.mem_filter.mp hs
    exact ⟨s, hmem, of_decide_eq_true hid⟩
  · rintro ⟨s, hmem, hid⟩
    exact List.ne_nil_of_mem (List.mem_filter.mpr ⟨hmem, decide_eq_true hid⟩)

namespace Catalogue

/-! ## The table -/

section Table

variable (c : Catalogue)

theorem get?_empty (id : String) : empty.get? id = none := Std.ExtTreeMap.getElem?_empty

theorem get?_register (s : Scanner) (id : String) :
    (c.register s).get? id = if s.id = id then some s else c.get? id := by
  rw [get?, register, Std.ExtTreeMap.get?_eq_getElem?, Std.ExtTreeMap.getElem?_insert]
  simp only [Std.compare_eq_iff_eq]
  rfl

/-- A catalogue is what it finds. -/
theorem eq_of_get?_eq {c c' : Catalogue} (h : ∀ id, c.get? id = c'.get? id) : c = c' := by
  obtain ⟨scanners⟩ := c
  obtain ⟨scanners'⟩ := c'
  exact congrArg mk (Std.ExtTreeMap.ext_getElem? h)

theorem mem_toList_iff (id : String) (s : Scanner) :
    (id, s) ∈ c.scanners.toList ↔ c.get? id = some s :=
  Std.ExtTreeMap.mem_toList_iff_getElem?_eq_some

theorem mem_ids_iff (id : String) : id ∈ c.ids ↔ (c.get? id).isSome := by
  rw [ids, List.mem_map, Option.isSome_iff_exists]
  constructor
  · rintro ⟨⟨id, s⟩, hentry, rfl⟩
    exact ⟨s, (c.mem_toList_iff id s).mp hentry⟩
  · rintro ⟨s, hs⟩
    exact ⟨(id, s), (c.mem_toList_iff id s).mpr hs, rfl⟩

theorem mem_all_iff (s : Scanner) : s ∈ c.all ↔ ∃ id, c.get? id = some s := by
  rw [all, List.mem_map]
  constructor
  · rintro ⟨⟨id, s⟩, hentry, rfl⟩
    exact ⟨id, (c.mem_toList_iff id s).mp hentry⟩
  · rintro ⟨id, hs⟩
    exact ⟨(id, s), (c.mem_toList_iff id s).mpr hs, rfl⟩

/-- The ids are listed in the order of their bytes, each once. -/
theorem pairwise_ids : c.ids.Pairwise fun a b => bytes a < bytes b := by
  refine List.pairwise_map.mpr (Std.ExtTreeMap.ordered_keys_toList.imp fun {a b} hlt => ?_)
  exact Text.bytes_lt_of_lt (compareOfLessAndEq_eq_lt.mp hlt)

/-- The scanners are listed as they are found under the ids. -/
theorem map_some_all : c.all.map some = c.ids.map c.get? := by
  rw [all, ids, List.map_map, List.map_map]
  refine List.map_congr_left fun entry hentry => ?_
  exact ((c.mem_toList_iff entry.1 entry.2).mp hentry).symm

theorem size_eq_length_all : c.size = c.all.length := by
  rw [size, all, List.length_map, Std.ExtTreeMap.length_toList]

/-- Scanners with different ids do not get in each other's way. -/
theorem register_comm {s t : Scanner} (h : s.id ≠ t.id) :
    (c.register s).register t = (c.register t).register s := by
  refine eq_of_get?_eq fun id => ?_
  simp only [get?_register]
  by_cases hs : s.id = id
  · have ht : t.id ≠ id := fun ht => h (hs.trans ht.symm)
    simp only [if_pos hs, if_neg ht]
  · simp only [if_neg hs]

/-- So they can be registered in any order. -/
theorem foldl_register_perm {ss ss' : List Scanner} (hperm : ss.Perm ss')
    (hids : (ss.map Scanner.id).Nodup) : ss.foldl register c = ss'.foldl register c := by
  refine hperm.foldl_eq' (fun s hs t ht c => ?_) c
  by_cases hid : s.id = t.id
  · -- there is one scanner of that id only
    rw [List.inj_on_of_nodup_map hids hs ht hid]
  · exact c.register_comm hid

end Table

/-! ## What counts is the last registration -/

/-- The catalogue came about by registering these scanners, in this order. -/
inductive HasHistory : Catalogue → List Scanner → Prop where
  | empty : HasHistory empty []
  | standard :
      HasHistory standard [Detector.movedAmounts.toScanner, Detector.returnedValues.toScanner]
  | register {c : Catalogue} {history : List Scanner} (h : HasHistory c history) (s : Scanner) :
      HasHistory (c.register s) (history ++ [s])

/-- The catalogue finds what was registered last. -/
def FindsLatest (c : Catalogue) (history : List Scanner) : Prop :=
  ∀ id, c.get? id = latest? history id

theorem findsLatest_empty : empty.FindsLatest [] := get?_empty

section Latest

variable {c : Catalogue} {history : List Scanner}

theorem FindsLatest.register (h : c.FindsLatest history) (s : Scanner) :
    (c.register s).FindsLatest (history ++ [s]) := by
  intro id
  rw [get?_register, latest?_concat, h id]

theorem HasHistory.findsLatest (h : c.HasHistory history) : c.FindsLatest history := by
  induction h with
  | empty => exact findsLatest_empty
  | standard => exact (findsLatest_empty.register _).register _
  | register _ s ih => exact ih.register s

theorem FindsLatest.mem_ids_iff (h : c.FindsLatest history) (id : String) :
    id ∈ c.ids ↔ ∃ s ∈ history, s.id = id := by
  rw [Catalogue.mem_ids_iff, h id, isSome_latest?_iff]

/-- The listings have the scanners that count, and no others. -/
theorem FindsLatest.mem_all_iff (h : c.FindsLatest history) (s : Scanner) :
    s ∈ c.all ↔ latest? history s.id = some s := by
  rw [Catalogue.mem_all_iff]
  constructor
  · rintro ⟨id, hs⟩
    rw [h id] at hs
    rwa [id_of_latest? hs]
  · intro hs
    exact ⟨s.id, (h s.id).trans hs⟩

/-- **The last registration counts.** After any registrations, the catalogue finds under an id
the scanner that was last registered with it, if there is one. It lists the registered ids in
the order of their bytes, and the scanners that it finds under them in the same order. The
listings by severity and of the enabled scanners are the parts of that listing whose scanners,
the last ones of their ids, are as asked for. Scanners with different ids can be registered in
any order. -/
theorem last_registration_counts (h : c.HasHistory history) :
    (∀ id, c.get? id = latest? history id)
      ∧ (c.ids.Pairwise fun a b => bytes a < bytes b)
      ∧ (∀ id, id ∈ c.ids ↔ ∃ s ∈ history, s.id = id)
      ∧ c.all.map some = c.ids.map c.get?
      ∧ c.size = c.all.length
      ∧ (∀ severity, c.withSeverity severity = c.all.filter (fun s => s.severity = severity)
          ∧ ∀ s, s ∈ c.withSeverity severity ↔
              latest? history s.id = some s ∧ s.severity = severity)
      ∧ c.enabled = c.all.filter (fun s => s.enabledByDefault)
      ∧ (∀ s, s ∈ c.enabled ↔ latest? history s.id = some s ∧ s.enabledByDefault = true)
      ∧ ∀ ss ss' : List Scanner, ss.Perm ss' → (ss.map Scanner.id).Nodup →
          ss.foldl register c = ss'.foldl register c := by
  have hlatest := h.findsLatest
  refine ⟨hlatest, c.pairwise_ids, hlatest.mem_ids_iff, c.map_some_all, c.size_eq_length_all,
    fun severity => ⟨?_, fun s => ?_⟩, rfl, fun s => ?_, fun ss ss' => c.foldl_register_perm⟩
  · refine List.filter_congr fun s _ => ?_
    rw [Bool.eq_iff_iff, beq_iff_eq, decide_eq_true_iff]
  · rw [withSeverity, List.mem_filter, hlatest.mem_all_iff, beq_iff_eq]
  · rw [enabled, List.mem_filter, hlatest.mem_all_iff]

/-- A scanner that finds nothing. -/
def idle (id : String) (severity : Severity) (enabledByDefault : Bool) : Scanner :=
  { id, name := id, severity, confidence := .low, enabledByDefault, scan := fun _ => some [] }

/-- A scanner takes the place of a detector, and is neither as severe nor enabled: the detector
is gone from the listings, and so is the scanner where it does not belong. Another one has an id
beyond ASCII, and two more can be registered in either order. -/
theorem last_registration_counts_idle :
    let usurper := idle Detector.movedAmounts.profile.id .low false
    let foreign := idle "ß" .low true
    let c := (standard.register usurper).register foreign
    c.HasHistory
        [Detector.movedAmounts.toScanner, Detector.returnedValues.toScanner, usurper, foreign]
      ∧ c.get? Detector.movedAmounts.profile.id = some usurper
      ∧ c.get? "z" = none
      ∧ "ß" ∈ c.ids
      ∧ Detector.movedAmounts.toScanner ∉ c.withSeverity .high
      ∧ usurper ∈ c.withSeverity .low
      ∧ usurper ∉ c.enabled
      ∧ [idle "a" .low true, idle "b" .high true].foldl register c
          = [idle "b" .high true, idle "a" .low true].foldl register c := by
  intro usurper foreign c
  have hhistory : c.HasHistory
      [Detector.movedAmounts.toScanner, Detector.returnedValues.toScanner, usurper, foreign] :=
    (HasHistory.standard.register usurper).register foreign
  obtain ⟨hget, -, hids, -, -, hseverity, -, henabled, horder⟩ := last_registration_counts hhistory
  refine ⟨hhistory, (hget _).trans rfl, (hget _).trans rfl, (hids _).mpr ⟨foreign, ?_, rfl⟩,
    fun hmem => ?_, ((hseverity .low).2 _).mpr ⟨rfl, rfl⟩, fun hmem => ?_,
    horder _ _ (.swap _ _ _) (by decide)⟩
  · exact List.mem_append_right [_, _, _] List.mem_cons_self
  · -- what counts under the id of the detector has another severity
    obtain ⟨hlatest, -⟩ := ((hseverity .high).2 _).mp hmem
    have hsame : some usurper = some Detector.movedAmounts.toScanner := hlatest
    exact absurd (congrArg Scanner.severity (Option.some.inj hsame)) (by decide)
  · obtain ⟨-, hdefault⟩ := (henabled _).mp hmem
    exact absurd hdefault (by decide)

end Latest

end Catalogue

end PriceTaint
