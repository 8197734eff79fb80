/-
What the questions about words in a text ask.

`occursIn` tries every place of a text in turn. It says that the piece is an infix
of the text, that is, one contiguous part of it.

The second question is about the text in lower case, and the lower-case form of a
text is not found letter by letter: characters outside ASCII can become several,
and some forms depend on what stands around. Little of that matters for the words
that are asked for. `LowersTo` says what does: outside ASCII, only the Kelvin sign
and the dotted capital I have an ASCII letter in their form. A word without a `k`,
and without an `i` at its end, can therefore only stand where the text itself is
ASCII, and there lowering is letter by letter.
-/
import PriceTaint.Text.Words

set_option autoImplicit false

namespace PriceTaint.Text

/-! ## Pieces of a text -/

theorem occursIn_iff_infix (piece text : List Char) :
    occursIn piece text = true ↔ piece <:+: text := by
  induction text with
  | nil => rw [occursIn, List.isEmpty_iff, List.infix_nil]
  | cons c cs ih =>
    rw [occursIn, Bool.or_eq_true, List.isPrefixOf_iff_prefix, ih, List.infix_cons_iff]

/-- The piece is one contiguous part of the text. -/
def Contained (piece text : String) : Prop := piece.toList <:+: text.toList

theorem contains_iff (text piece : String) : contains text piece = true ↔ Contained piece text :=
  occursIn_iff_infix piece.toList text.toList

/-! ## Lower case -/

/-- The character is outside ASCII. -/
def Foreign (c : Char) : Prop := 128 ≤ c.toNat

instance (c : Char) : Decidable (Foreign c) := inferInstanceAs (Decidable (128 ≤ c.toNat))

/-- The lower-case form of a character can be this. Of the forms outside ASCII only
that is said which all of them have in common. -/
inductive LowersTo : Char → List Char → Prop where
  | ascii {c : Char} (hc : ¬ Foreign c) : LowersTo c [c.toLower]
  | kelvin : LowersTo '\u212a' ['k']
  | dottedI : LowersTo '\u0130' ['i', '\u0307']
  | foreign {c : Char} {form : List Char} (hc : Foreign c) (hne : form ≠ [])
      (hform : ∀ d ∈ form, Foreign d) : LowersTo c form

/-- The lower-case form of a text can be this. -/
inductive LowerCase : List Char → List Char → Prop where
  | nil : LowerCase [] []
  | cons {c : Char} {form text lowered : List Char} (hc : LowersTo c form)
      (h : LowerCase text lowered) : LowerCase (c :: text) (form ++ lowered)

/-- The word is one contiguous part of the text in lower case. -/
def Mentioned (word text : String) : Prop :=
  ∃ lowered, LowerCase text.toList lowered ∧ word.toList <:+: lowered

theorem toLower_of_foreign {c : Char} (hc : Foreign c) : c.toLower = c := by
  unfold Char.toLower
  rw [dif_neg]
  rintro ⟨-, hz⟩
  have hle : c.toNat ≤ 'Z'.toNat := hz
  exact absurd (Nat.le_trans hc hle) (by decide)

/-- Lowering the ASCII letters alone gives a lower-case form. -/
theorem lowerCase_map_toLower (text : List Char) : LowerCase text (text.map Char.toLower) := by
  induction text with
  | nil => exact .nil
  | cons c cs ih =>
    refine @LowerCase.cons c [c.toLower] cs _ ?_ ih
    by_cases hc : Foreign c
    · refine .foreign hc (List.cons_ne_nil _ _) fun d hd => ?_
      rw [List.mem_singleton.mp hd, toLower_of_foreign hc]
      exact hc
    · exact .ascii hc

/-! ## Words in lower case -/

/-- A word that no form outside ASCII can contribute to. -/
structure Plain (word : List Char) : Prop where
  ascii : ∀ c ∈ word, ¬ Foreign c
  noKelvin : 'k' ∉ word
  noDotted : word.getLast? ≠ some 'i'

theorem Plain.tail {a : Char} {word : List Char} (h : Plain (a :: word)) : Plain word where
  ascii c hc := h.ascii c (List.mem_cons_of_mem a hc)
  noKelvin hk := h.noKelvin (List.mem_cons_of_mem a hk)
  noDotted hi := h.noDotted (by rw [List.getLast?_cons, hi]; rfl)

/-- The first character decides against a word if it is outside ASCII. -/
theorem Plain.not_prefix_of_foreign {word : List Char} (hword : Plain word) (hne : word ≠ [])
    {d : Char} (hd : Foreign d) (rest : List Char) : ¬ word <+: d :: rest := by
  cases word with
  | nil => exact absurd rfl hne
  | cons a word =>
    intro h
    obtain ⟨rfl, -⟩ := List.cons_prefix_cons.mp h
    exact hword.ascii a List.mem_cons_self hd

/-- Characters outside ASCII can be passed over. -/
theorem Plain.infix_append_iff {word : List Char} (hword : Plain word) (hne : word ≠ [])
    {skipped : List Char} (hskipped : ∀ d ∈ skipped, Foreign d) (rest : List Char) :
    word <:+: skipped ++ rest ↔ word <:+: rest := by
  induction skipped with
  | nil => rfl
  | cons d skipped ih =>
    obtain ⟨hd, hskipped⟩ := List.forall_mem_cons.mp hskipped
    rw [List.cons_append, List.infix_cons_iff, ih hskipped,
      or_iff_right (hword.not_prefix_of_foreign hne hd _)]

/-- After its first character, a form has none in ASCII. -/
theorem LowersTo.eq_cons {c : Char} {form : List Char} (h : LowersTo c form) :
    ∃ d ds, form = d :: ds ∧ ∀ x ∈ ds, Foreign x := by
  cases h with
  | ascii => exact ⟨c.toLower, [], rfl, List.forall_mem_nil _⟩
  | kelvin => exact ⟨'k', [], rfl, List.forall_mem_nil _⟩
  | dottedI => exact ⟨'i', ['\u0307'], rfl, List.forall_mem_singleton.mpr (by decide)⟩
  | foreign hc hne hform =>
    obtain ⟨d, ds, rfl⟩ := List.exists_cons_of_ne_nil hne
    exact ⟨d, ds, rfl, (List.forall_mem_cons.mp hform).2⟩

/-- A plain word starts a lower-case form if and only if it starts the text with its
ASCII letters lowered. -/
theorem LowerCase.prefix_iff {text lowered : List Char} (h : LowerCase text lowered)
    {word : List Char} (hword : Plain word) :
    word <+: lowered ↔ word <+: text.map Char.toLower := by
  induction h generalizing word with
  | nil => rfl
  | @cons c form text lowered hc _ ih =>
    cases word with
    | nil => simp only [List.nil_prefix]
    | cons a word =>
      have ha : ¬ Foreign a := hword.ascii a List.mem_cons_self
      rw [List.map_cons, List.cons_prefix_cons]
      cases hc with
      | ascii => rw [List.singleton_append, List.cons_prefix_cons, ih hword.tail]
      | kelvin =>
        -- a `k` on the one side, a character outside ASCII on the other
        rw [List.singleton_append, List.cons_prefix_cons]
        refine iff_of_false ?_ ?_
        · rintro ⟨rfl, -⟩
          exact hword.noKelvin List.mem_cons_self
        · rintro ⟨rfl, -⟩
          exact ha (by decide)
      | dottedI =>
        rw [List.cons_append, List.cons_prefix_cons]
        refine iff_of_false ?_ ?_
        · rintro ⟨rfl, hrest⟩
          -- the dot ends what can be part of the word, which would end in `i`
          by_cases hne : word = []
          · exact hword.noDotted (by rw [hne]; rfl)
          · exact hword.tail.not_prefix_of_foreign hne (by decide) _ hrest
        · rintro ⟨rfl, -⟩
          exact ha (by decide)
      | foreign hforeign hne hform =>
        obtain ⟨d, ds, rfl⟩ := List.exists_cons_of_ne_nil hne
        rw [List.cons_append, List.cons_prefix_cons, toLower_of_foreign hforeign]
        refine iff_of_false ?_ ?_
        · rintro ⟨rfl, -⟩
          exact ha (hform a List.mem_cons_self)
        · rintro ⟨rfl, -⟩
          exact ha hforeign

/-- The same for the places inside. -/
theorem LowerCase.infix_iff {text lowered : List Char} (h : LowerCase text lowered)
    {word : List Char} (hword : Plain word) (hne : word ≠ []) :
    word <:+: lowered ↔ word <:+: text.map Char.toLower := by
  induction h with
  | nil => rfl
  | @cons c form text lowered hc h ih =>
    have hstart := (LowerCase.cons hc h).prefix_iff hword
    obtain ⟨d, ds, rfl, hds⟩ := hc.eq_cons
    rw [List.map_cons] at hstart ⊢
    rw [List.cons_append] at hstart ⊢
    rw [List.infix_cons_iff, List.infix_cons_iff, hstart, hword.infix_append_iff hne hds, ih]

/-- Lowering the ASCII letters finds the plain words in every lower-case form of
the text. -/
theorem mentions_iff {word : String} (hword : Plain word.toList) (hne : word.toList ≠ [])
    (text : String) : mentions text word = true ↔ Mentioned word text := by
  rw [mentions, occursIn_iff_infix]
  constructor
  · intro h
    exact ⟨_, lowerCase_map_toLower text.toList, h⟩
  · rintro ⟨lowered, hlowered, h⟩
    exact (hlowered.infix_iff hword hne).mp h

end PriceTaint.Text
