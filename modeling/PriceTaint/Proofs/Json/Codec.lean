/-
Writers and readers that agree.

A part of a document has a writer into JSON values and a reader of them. The reader
*recovers* what was written when it gives back what the writer was given and when what
the writer makes can be stored as text. The two are *faithful* to each other when,
besides, everything the reader accepts is again something the writer can be given. The
former is the way out and back; the latter closes the circle, for documents that come
from somewhere else.

The readers accept more than the writers make (defaults, arrays in place of objects,
unknown members), so nothing is said here about the text itself. A field that a writer
leaves out is an empty slot of its record.
-/
import PriceTaint.Json.Record
import PriceTaint.Proofs.Json.Parsing
import PriceTaint.Proofs.Sequences

set_option autoImplicit false

namespace PriceTaint.Json

/-- More room does no harm. -/
theorem Legible.mono {room room' : Nat} {v : Json} (h : Legible room v) (hle : room ≤ room') :
    Legible room' v := by
  induction h generalizing room' with
  | null => exact .null room'
  | bool _ b => exact .bool room' b
  | number _ hn => exact .number room' hn
  | string _ s => exact .string room' s
  | array _ ih =>
    obtain ⟨k, rfl⟩ := Nat.exists_eq_add_of_le' hle
    exact .array fun v hv => ih v hv (Nat.le_add_left _ k)
  | object _ ih =>
    obtain ⟨k, rfl⟩ := Nat.exists_eq_add_of_le' hle
    exact .object fun m hm => ih m hm (Nat.le_add_left _ k)

/-- The reader `decode` gives back everything that fits from what the writer `encode` has
made of it. Written values have at most `height` brackets around one another. -/
structure Recovers {α : Type} (encode : α → Json) (decode : Json → Option α)
    (Fits : α → Prop) (height : Nat) : Prop where
  reads : ∀ {x}, Fits x → decode (encode x) = some x
  legible : ∀ {x}, Fits x → Legible height (encode x)

/-- The writer and the reader agree on everything that fits, and the reader accepts
nothing else. -/
structure Faithful {α : Type} (encode : α → Json) (decode : Json → Option α)
    (Fits : α → Prop) (height : Nat) : Prop extends Recovers encode decode Fits height where
  fits : ∀ {v x}, decode v = some x → Fits x

/-- What fits when there is nothing to fit into. -/
def Anything {α : Type} (_ : α) : Prop := True

/-! ## Simple values -/

theorem faithful_text : Faithful .string text? Anything 0 where
  reads _ := rfl
  legible _ := .string 0 _
  fits _ := trivial

theorem faithful_bool : Faithful .bool bool? Anything 0 where
  reads _ := rfl
  legible _ := .bool 0 _
  fits _ := trivial

theorem faithful_index : Faithful .ofNat index? (· < Numeral.indexLimit) 0 where
  reads hn := Numeral.toIndex?_ofNat hn
  legible hn := .number 0 (Numeral.legible_ofNat hn)
  fits {v n} h := by
    cases v with
    | number m => exact Numeral.toIndex?_lt h
    | _ => cases h

/-- Choices that are written as their tags. -/
theorem faithful_choice {α : Type} {tag : α → String} {ofTag? : String → Option α}
    (h : ∀ x, ofTag? (tag x) = some x) :
    Faithful (fun x => .string (tag x)) (choice? ofTag?) Anything 0 where
  reads {x} _ := h x
  legible _ := .string 0 _
  fits _ := trivial

/-! ## Lists -/

section Combinators

variable {α : Type} {encode : α → Json} {decode : Json → Option α} {Fits : α → Prop} {height : Nat}

/-- A list is recovered with its elements, inside one more bracket. -/
theorem Recovers.list (h : Recovers encode decode Fits height) :
    Recovers (ofList encode) (list? decode) (fun xs => ∀ x ∈ xs, Fits x) (height + 1) where
  reads hxs := List.mapM_map_eq_some fun x hx => h.reads (hxs x hx)
  legible hxs := .array fun v hv => by
    obtain ⟨x, hx, rfl⟩ := List.mem_map.mp hv
    exact h.legible (hxs x hx)

/-- A list is as faithful as its elements. -/
theorem Faithful.list (h : Faithful encode decode Fits height) :
    Faithful (ofList encode) (list? decode) (fun xs => ∀ x ∈ xs, Fits x) (height + 1) where
  toRecovers := h.toRecovers.list
  fits {v xs} hxs x hx := by
    cases v with
    | array items =>
      obtain ⟨v, hv⟩ := List.exists_of_mem_mapM hxs hx
      exact h.fits hv
    | _ => cases hxs

/-! ## Records -/

theorem Recovers.reads_required (h : Recovers encode decode Fits height) {fields : Fields}
    {name : String} {x : α} (hname : fields.lookup name = some (encode x)) (hx : Fits x) :
    fields.required name decode = some x := by
  rw [Fields.required, hname, Option.bind_some, h.reads hx]

theorem Recovers.reads_withDefault (h : Recovers encode decode Fits height) {fields : Fields}
    {name : String} {default x : α} (hname : fields.lookup name = some (encode x)) (hx : Fits x) :
    fields.withDefault name default decode = some x := by
  simp only [Fields.withDefault, hname, h.reads hx]

theorem Faithful.fits_required (h : Faithful encode decode Fits height) {fields : Fields}
    {name : String} {x : α} (hx : fields.required name decode = some x) : Fits x := by
  obtain ⟨v, -, hv⟩ := Option.bind_eq_some_iff.mp hx
  exact h.fits hv

theorem Faithful.fits_withDefault (h : Faithful encode decode Fits height) {fields : Fields}
    {name : String} {default x : α} (hdefault : Fits default)
    (hx : fields.withDefault name default decode = some x) : Fits x := by
  rw [Fields.withDefault] at hx
  split at hx
  · exact h.fits hx
  · cases hx
    exact hdefault

/-- A field that is left out if there is nothing to write. -/
theorem Recovers.reads_nullable (h : Recovers encode decode Fits height)
    (hnull : ∀ x, encode x ≠ .null) {fields : Fields} {name : String} {x : Option α}
    (hname : fields.lookup name = x.map encode) (hx : ∀ y ∈ x, Fits y) :
    fields.withDefault name none (nullable? decode) = some x := by
  cases x with
  | none => simp only [Fields.withDefault, hname, Option.map_none]
  | some y =>
    have hread : nullable? decode (encode y) = (decode (encode y)).map some :=
      nullable?.eq_2 decode (encode y) (hnull y)
    simp only [Fields.withDefault, hname, Option.map_some, hread, h.reads (hx y rfl)]

/-- A list that is left out if it is empty. -/
theorem Recovers.reads_unlessEmpty (h : Recovers encode decode Fits height) {fields : Fields}
    {name : String} {xs : List α}
    (hname : fields.lookup name = if xs.isEmpty then none else some (ofList encode xs))
    (hxs : ∀ x ∈ xs, Fits x) : fields.withDefault name [] (list? decode) = some xs := by
  cases xs with
  | nil => simp only [Fields.withDefault, hname, List.isEmpty_nil, if_true]
  | cons x xs => exact h.list.reads_withDefault hname hxs

end Combinators

/-- The members of a record whose fields need not all be written. -/
def written (slots : List (String × Option Json)) : List (String × Json) :=
  slots.filterMap fun slot => slot.2.map (slot.1, ·)

theorem mem_written_iff (slots : List (String × Option Json)) (m : String × Json) :
    m ∈ written slots ↔ (m.1, some m.2) ∈ slots := by
  rw [written, List.mem_filterMap]
  constructor
  · rintro ⟨⟨name, value⟩, hslot, hm⟩
    obtain ⟨v, rfl, rfl⟩ := Option.map_eq_some_iff.mp hm
    exact hslot
  · intro hslot
    exact ⟨_, hslot, rfl⟩

theorem sublist_names_written (slots : List (String × Option Json)) :
    ((written slots).map Prod.fst).Sublist (slots.map Prod.fst) := by
  induction slots with
  | nil => exact .slnil
  | cons slot slots ih =>
    obtain ⟨name, value⟩ := slot
    cases value with
    | none => exact ih.cons name
    | some v => exact ih.cons_cons name

/-- Where no name is repeated, what is written of a field is found under its name. -/
theorem lookup_written {slots : List (String × Option Json)}
    (hnodup : (slots.map Prod.fst).Nodup) {slot : String × Option Json} (hslot : slot ∈ slots) :
    (written slots).lookup slot.1 = slot.2 := by
  induction slots with
  | nil => cases hslot
  | cons first slots ih =>
    obtain ⟨hfirst, hrest⟩ := List.nodup_cons.mp hnodup
    obtain ⟨name, value⟩ := first
    rcases List.mem_cons.mp hslot with rfl | hlater
    · cases value with
      | none =>
        -- the name does not come again, so nothing is found under it
        refine List.lookup_eq_none_iff.mpr fun m hm => bne_iff_ne.mpr ?_
        rintro rfl
        exact hfirst ((sublist_names_written slots).subset (List.mem_map_of_mem hm))
      | some v => exact List.lookup_cons_self
    · have hne : slot.1 ≠ name := by
        rintro rfl
        exact hfirst (List.mem_map.mpr ⟨slot, hlater, rfl⟩)
      cases value with
      | none => exact ih hrest hlater
      | some v =>
        have hcons : written ((name, some v) :: slots) = (name, v) :: written slots := rfl
        rw [hcons, List.lookup_cons, beq_false_of_ne hne]
        exact ih hrest hlater

/-- An object with members for fields of a record, each at most once, is that record: its
reader finds what is written of every field. -/
theorem fields?_of_written (slots : List (String × Option Json)) (v : Json) (names : List String)
    (hv : v = .object (written slots)) (hnames : slots.map Prod.fst = names)
    (hnodup : names.Nodup) :
    ∃ fields, v.fields? names = some fields ∧ ∀ slot ∈ slots, fields.lookup slot.1 = slot.2 := by
  have hsub := sublist_names_written slots
  rw [hnames] at hsub
  have hknown : ((written slots).filter fun m => names.contains m.1) = written slots := by
    refine List.filter_eq_self.mpr fun m hm => ?_
    rw [List.contains_iff_mem]
    exact hsub.subset (List.mem_map_of_mem hm)
  refine ⟨written slots, ?_, fun slot hslot => lookup_written (hnames ▸ hnodup) hslot⟩
  rw [hv, fields?]
  simp only [hknown, if_pos (hnodup.sublist hsub)]

/-- What is legible for each field that is written is legible for the record. -/
theorem Legible.of_written {room : Nat} {slots : List (String × Option Json)}
    (h : ∀ slot ∈ slots, ∀ v ∈ slot.2, Legible room v) :
    Legible (room + 1) (.object (written slots)) :=
  .object fun m hm => h _ ((mem_written_iff slots m).mp hm) m.2 rfl

/-- An object whose members are the fields of a record, each once, is that record:
its reader finds every field. -/
theorem fields?_of_object {members : List (String × Json)} (v : Json) (names : List String)
    (hv : v = .object members) (hnames : members.map Prod.fst = names) (hnodup : names.Nodup) :
    ∃ fields, v.fields? names = some fields ∧ ∀ m ∈ members, fields.lookup m.1 = some m.2 := by
  have hall : written (members.map fun m => (m.1, some m.2)) = members := by
    rw [written, List.filterMap_map]
    exact List.filterMap_some
  obtain ⟨fields, hfields, hslots⟩ := fields?_of_written (members.map fun m => (m.1, some m.2))
    v names (by rw [hall, hv]) (by rw [List.map_map, ← hnames]; rfl) hnodup
  exact ⟨fields, hfields, fun m hm => hslots _ (List.mem_map_of_mem hm)⟩

/-- A tag and its content side by side. -/
theorem tagged?_object {tagName contentName : String} (hne : tagName ≠ contentName)
    (tag : String) (content : Json) :
    tagged? tagName contentName (.object [(tagName, .string tag), (contentName, content)])
      = some (tag, some content) := by
  obtain ⟨fields, hfields, hmembers⟩ := fields?_of_object
    (.object [(tagName, .string tag), (contentName, content)]) [tagName, contentName] rfl rfl
    (by simp [hne])
  simp only [List.forall_mem_cons] at hmembers
  obtain ⟨htag, hcontent, -⟩ := hmembers
  rw [tagged?, hfields, Option.bind_eq_bind, Option.bind_some, Fields.required, htag, hcontent]
  rfl

end PriceTaint.Json
