/-
The tokens of written text.

The indented layout puts blanks only between tokens, and what it writes for a
string or a numeral is taken apart again character by character. So scanning the
text of a value gives exactly the tokens of the value, in order; `Json.tokens`
says which these are without any reference to text.

A numeral is the one token that does not show its own end: it goes on as long as
the characters could belong to it. Every statement here is therefore about a text
that is followed by something which does not continue a numeral.
-/
import PriceTaint.Json.Token
import PriceTaint.Json.Writer
import PriceTaint.Proofs.Json.Numerals

set_option autoImplicit false

namespace PriceTaint

/-! ## Values that can be read back -/

/-- A numeral whose text is read as itself, and as a number inside the range. -/
structure Numeral.Legible (n : Numeral) : Prop where
  starts : ∃ c cs, n.text = c :: cs ∧ (c == '-' || c.isDigit) = true
  parts : ∀ c ∈ n.text, isPart c = true
  reads : ofText? n.text = some n
  inRange : Score.inRange n = true

theorem Numeral.legible_ofNat {n : Nat} (hn : n < indexLimit) : (ofNat n).Legible where
  starts := by
    obtain ⟨c, cs, hcs⟩ := List.exists_cons_of_ne_nil (Nat.toDigits_ne_nil (n := n) (b := 10))
    have hc : c.isDigit = true := isDigit_of_mem_toDigits (hcs ▸ List.mem_cons_self)
    exact ⟨c, cs, by rw [text_ofNat, hcs], by rw [hc, Bool.or_true]⟩
  parts c hc := by
    rw [text_ofNat] at hc
    simp [isPart, isDigit_of_mem_toDigits hc]
  reads := ofText?_text_ofNat n
  inRange := Score.inRange_ofNat hn

namespace Json

/-- A value that is kept when it is written and read again inside so many brackets
that only `room` more may be opened. -/
inductive Legible : Nat → Json → Prop
  | null (room : Nat) : Legible room .null
  | bool (room : Nat) (b : Bool) : Legible room (.bool b)
  | number (room : Nat) {n : Numeral} (hn : n.Legible) : Legible room (.number n)
  | string (room : Nat) (s : String) : Legible room (.string s)
  | array {room : Nat} {items : List Json} (h : ∀ v ∈ items, Legible room v) :
      Legible (room + 1) (.array items)
  | object {room : Nat} {members : List (String × Json)} (h : ∀ m ∈ members, Legible room m.2) :
      Legible (room + 1) (.object members)

mutual
/-- The tokens of a value. -/
def tokens : Json → List Token
  | .null => [.null]
  | .bool b => [.bool b]
  | .number n => [.number n]
  | .string s => [.string (some s)]
  | .array [] => [.openArray, .closeArray]
  | .array (v :: vs) => .openArray :: tokens v ++ itemTokens vs
  | .object [] => [.openObject, .closeObject]
  | .object (m :: ms) =>
    .openObject :: .string (some m.1) :: .colon :: tokens m.2 ++ memberTokens ms
  | .unreadable => [.null]

/-- The tokens of further elements and of the end of an array. -/
def itemTokens : List Json → List Token
  | [] => [.closeArray]
  | v :: vs => .comma :: tokens v ++ itemTokens vs

/-- The tokens of further members and of the end of an object. -/
def memberTokens : List (String × Json) → List Token
  | [] => [.closeObject]
  | m :: ms => .comma :: .string (some m.1) :: .colon :: tokens m.2 ++ memberTokens ms
end

end Json

/-! ## Runs of the lexer -/

namespace Token

theorem Lexer.run_append (s : Lexer) (text rest : List Char) :
    s.run (text ++ rest) = (s.run text).bind fun t => t.run rest := by
  induction text generalizing s with
  | nil => rfl
  | cons c cs ih =>
    rw [List.cons_append, run, run]
    cases s.step c with
    | none => rfl
    | some t => exact ih t

/-- The tokens of a text together with those that have been read before it, which
are given in reverse. -/
def scanAfter (before : List Token) (text : List Char) : Option (List Token) :=
  ((Lexer.mk before .blank).run text).bind Lexer.finish

/-- A text whose run ends between tokens can be scanned apart from what follows. -/
theorem scanAfter_append {before after : List Token} {text : List Char} (rest : List Char)
    (h : (Lexer.mk before .blank).run text = some ⟨after, .blank⟩) :
    scanAfter before (text ++ rest) = scanAfter after rest := by
  rw [scanAfter, Lexer.run_append, h]
  rfl

theorem scanAfter_blanks (before : List Token) (count : Nat) (rest : List Char) :
    scanAfter before (List.replicate count ' ' ++ rest) = scanAfter before rest := by
  induction count with
  | zero => rfl
  | succ count ih => exact ih

theorem scanAfter_newline (before : List Token) (level : Nat) (rest : List Char) :
    scanAfter before (Json.newline level ++ rest) = scanAfter before rest :=
  scanAfter_blanks before (2 * level) rest

/-! ## Strings -/

/-- A string under construction in which no half of a surrogate pair has occurred. -/
def Quoted.ofChars (chars : List Char) : Quoted := ⟨chars, none, false⟩

theorem hexValue_hexDigit {n : Nat} (hn : n < 16) : hexValue (Json.hexDigit n) = some n := by
  have hall : ∀ m : Fin 16, hexValue (Json.hexDigit m) = some m.val := by decide
  exact hall ⟨n, hn⟩

/-- The long escape of a control character. -/
theorem run_unitEscape (before : List Token) (chars : List Char) {c : Char}
    (hc : c.toNat < 0x20) :
    (Lexer.mk before (.text (.ofChars chars))).run
        ['\\', 'u', '0', '0', Json.hexDigit (c.toNat / 16), Json.hexDigit (c.toNat % 16)]
      = some ⟨before, .text (.ofChars (c :: chars))⟩ := by
  have hhigh := hexValue_hexDigit (n := c.toNat / 16) (by omega)
  have hlow := hexValue_hexDigit (n := c.toNat % 16) (by omega)
  have hunit : c.toNat / 16 * 16 + c.toNat % 16 = c.toNat := Nat.div_add_mod' _ _
  -- a code unit this small is neither half of a surrogate pair
  have hpush : (Quoted.ofChars chars).pushUnit c.toNat = .ofChars (c :: chars) := by
    have hnotHigh : isHighHalf c.toNat = false := by simp [isHighHalf]; omega
    have hnotLow : isLowHalf c.toNat = false := by simp [isLowHalf]; omega
    simp [Quoted.pushUnit, Quoted.ofChars, Quoted.push, hnotHigh, hnotLow]
  have hzero : hexValue '0' = some 0 := by decide
  simp [Lexer.run, Lexer.step, hzero, hhigh, hlow, hunit, hpush]

/-- An escape of one letter. -/
theorem run_letterEscape (before : List Token) (chars : List Char) {letter c : Char}
    (hunit : (letter == 'u') = false) (hletter : unescape letter = some c) :
    (Lexer.mk before (.text (.ofChars chars))).run ['\\', letter]
      = some ⟨before, .text (.ofChars (c :: chars))⟩ := by
  simp [Lexer.run, Lexer.step, hunit, hletter, Quoted.push, Quoted.ofChars]

/-- A character inside a string is read as itself, however it is escaped. -/
theorem run_escapeChar (before : List Token) (chars : List Char) (c : Char) :
    (Lexer.mk before (.text (.ofChars chars))).run (Json.escapeChar c)
      = some ⟨before, .text (.ofChars (c :: chars))⟩ := by
  unfold Json.escapeChar
  split_ifs with hquote hslash hn ht hr hb hf hcontrol
  · rw [beq_iff_eq.mp hquote, run_letterEscape before chars rfl rfl]
  · rw [beq_iff_eq.mp hslash, run_letterEscape before chars rfl rfl]
  · rw [beq_iff_eq.mp hn, run_letterEscape before chars rfl rfl]
  · rw [beq_iff_eq.mp ht, run_letterEscape before chars rfl rfl]
  · rw [beq_iff_eq.mp hr, run_letterEscape before chars rfl rfl]
  · rw [beq_iff_eq.mp hb, run_letterEscape before chars rfl rfl]
  · rw [beq_iff_eq.mp hf, run_letterEscape before chars rfl rfl]
  · exact run_unitEscape before chars hcontrol
  · simp [Lexer.run, Lexer.step, hquote, hslash, hcontrol, Quoted.push, Quoted.ofChars]

theorem run_escaped (before : List Token) (chars text : List Char) :
    (Lexer.mk before (.text (.ofChars chars))).run (text.flatMap Json.escapeChar)
      = some ⟨before, .text (.ofChars (text.reverse ++ chars))⟩ := by
  induction text generalizing chars with
  | nil => rfl
  | cons c cs ih =>
    rw [List.flatMap_cons, Lexer.run_append, run_escapeChar, Option.bind_some, ih,
      List.reverse_cons, List.append_assoc, List.singleton_append]

/-- A quoted string is scanned as one token that holds the string. -/
theorem scanAfter_quote (before : List Token) (s : String) (rest : List Char) :
    scanAfter before (Json.quote s ++ rest) = scanAfter (.string (some s) :: before) rest := by
  refine scanAfter_append rest ?_
  have hopen : (Lexer.mk before .blank).step '"' = some ⟨before, .text (.ofChars [])⟩ := rfl
  have hclose : (Quoted.ofChars s.toList.reverse).token = .string (some s) := by
    simp [Quoted.token, Quoted.ofChars]
  rw [Json.quote, List.cons_append, Lexer.run, hopen]
  simp only [Lexer.run_append, run_escaped, List.append_nil, Option.bind_some, Lexer.run,
    Lexer.step, beq_self_eq_true, if_true, hclose]

/-! ## Numerals -/

/-- Nothing at the start of the text continues a numeral. -/
def Delimited (text : List Char) : Prop := ∀ c ∈ text.head?, Numeral.isPart c = false

theorem delimited_cons {c : Char} (hc : Numeral.isPart c = false) (cs : List Char) :
    Delimited (c :: cs) := fun d hd => by
  cases hd
  exact hc

theorem start_numeral (before : List Token) {c : Char} (hc : (c == '-' || c.isDigit) = true) :
    start before c = some ⟨before, .numeral [c]⟩ := by
  have hblank : ¬isBlank c = true := by
    simp only [isBlank, Bool.or_eq_true, beq_iff_eq]
    rintro (((rfl | rfl) | rfl) | rfl) <;> exact absurd hc (by decide)
  unfold start
  rw [if_neg hblank]
  split
  case h_11 => exact if_pos hc
  all_goals exact absurd hc (by decide)

theorem run_parts (before : List Token) (chars : List Char) {text : List Char}
    (htext : ∀ c ∈ text, Numeral.isPart c = true) :
    (Lexer.mk before (.numeral chars)).run text
      = some ⟨before, .numeral (text.reverse ++ chars)⟩ := by
  induction text generalizing chars with
  | nil => rfl
  | cons c cs ih =>
    obtain ⟨hc, hcs⟩ := List.forall_mem_cons.mp htext
    have hstep : (Lexer.mk before (.numeral chars)).step c = some ⟨before, .numeral (c :: chars)⟩ :=
      if_pos hc
    rw [Lexer.run, hstep]
    exact (ih (c :: chars) hcs).trans (by rw [List.reverse_cons, List.append_assoc]; rfl)

/-- A finished numeral leaves the lexer as if it stood between tokens. -/
theorem scanAfter_of_numeral {before : List Token} {chars rest : List Char} {n : Numeral}
    (hn : Numeral.ofText? chars.reverse = some n) (hrest : Delimited rest) :
    ((Lexer.mk before (.numeral chars)).run rest).bind Lexer.finish
      = scanAfter (.number n :: before) rest := by
  have hend : endNumeral before chars = some (.number n :: before) := by rw [endNumeral, hn]; rfl
  -- the numeral ends with the text, or at a character that is then read as if it came
  -- after the finished token
  cases rest with
  | nil => simp [scanAfter, Lexer.run, Lexer.finish, hend]
  | cons c cs =>
    have hc : Numeral.isPart c = false := hrest c rfl
    have hstep : (Lexer.mk before (.numeral chars)).step c
        = (Lexer.mk (.number n :: before) .blank).step c := by
      simp [Lexer.step, hc, hend]
    rw [scanAfter, Lexer.run, Lexer.run, hstep]

theorem scanAfter_number (before : List Token) {n : Numeral} (hn : n.Legible) {rest : List Char}
    (hrest : Delimited rest) :
    scanAfter before (n.text ++ rest) = scanAfter (.number n :: before) rest := by
  obtain ⟨c, cs, hcs, hc⟩ := hn.starts
  have hparts : ∀ d ∈ cs, Numeral.isPart d = true := fun d hd =>
    hn.parts d (hcs ▸ List.mem_cons_of_mem c hd)
  have hread : Numeral.ofText? (cs.reverse ++ [c]).reverse = some n := by
    rw [List.reverse_append, List.reverse_reverse, List.reverse_singleton, List.singleton_append,
      ← hcs, hn.reads]
  have hrun : (Lexer.mk before .blank).run (c :: cs)
      = some ⟨before, .numeral (cs.reverse ++ [c])⟩ := by
    rw [Lexer.run, Lexer.step, start_numeral before hc]
    exact run_parts before [c] hparts
  rw [hcs, scanAfter, Lexer.run_append, hrun]
  exact scanAfter_of_numeral hread hrest

/-! ## Values -/

/-- The text consists of the tokens, with blanks between them. -/
def Spells (text : List Char) (tokens : List Token) : Prop :=
  ∀ before rest, Delimited rest →
    scanAfter before (text ++ rest) = scanAfter (tokens.reverse ++ before) rest

theorem spells_of_run {text : List Char} {token : Token}
    (h : ∀ before, (Lexer.mk before .blank).run text = some ⟨token :: before, .blank⟩) :
    Spells text [token] := fun before rest _ => scanAfter_append rest (h before)

end Token

namespace Json

open Token

theorem delimited_prettyItems (level : Nat) (vs : List Json) (rest : List Char) :
    Delimited (prettyItems level vs ++ rest) := by
  cases vs with
  | nil => exact delimited_cons (by decide) _
  | cons v vs => exact delimited_cons (by decide) _

theorem delimited_prettyMembers (level : Nat) (ms : List (String × Json)) (rest : List Char) :
    Delimited (prettyMembers level ms ++ rest) := by
  cases ms with
  | nil => exact delimited_cons (by decide) _
  | cons m ms => exact delimited_cons (by decide) _

theorem scanAfter_comma (before : List Token) (rest : List Char) :
    scanAfter before (',' :: rest) = scanAfter (.comma :: before) rest := rfl

/-- The name of a member, up to its value. -/
theorem scanAfter_name (before : List Token) (level : Nat) (name : String) (rest : List Char) :
    scanAfter before (newline level ++ (quote name ++ ':' :: ' ' :: rest))
      = scanAfter (.colon :: .string (some name) :: before) rest := by
  rw [scanAfter_newline, scanAfter_quote]
  rfl

theorem spells_prettyItems (level : Nat) {vs : List Json}
    (h : ∀ v ∈ vs, ∀ level, Spells (prettyChars level v) (tokens v)) :
    Spells (prettyItems level vs) (itemTokens vs) := by
  induction vs with
  | nil =>
    intro before rest _
    rw [prettyItems, itemTokens, List.append_assoc, scanAfter_newline]
    rfl
  | cons v vs ih =>
    intro before rest hrest
    obtain ⟨hv, hvs⟩ := List.forall_mem_cons.mp h
    -- the element may be a numeral; what follows it starts with a comma or a new line
    simp only [prettyItems, itemTokens, List.cons_append, List.append_assoc, List.reverse_cons,
      List.reverse_append]
    rw [scanAfter_comma, scanAfter_newline,
      hv (level + 1) _ _ (delimited_prettyItems level vs rest), ih hvs _ _ hrest]
    rfl

theorem spells_prettyMembers (level : Nat) {ms : List (String × Json)}
    (h : ∀ m ∈ ms, ∀ level, Spells (prettyChars level m.2) (tokens m.2)) :
    Spells (prettyMembers level ms) (memberTokens ms) := by
  induction ms with
  | nil =>
    intro before rest _
    rw [prettyMembers, memberTokens, List.append_assoc, scanAfter_newline]
    rfl
  | cons m ms ih =>
    intro before rest hrest
    obtain ⟨hm, hms⟩ := List.forall_mem_cons.mp h
    simp only [prettyMembers, memberTokens, List.cons_append, List.append_assoc,
      List.reverse_cons, List.reverse_append]
    rw [scanAfter_comma, scanAfter_name,
      hm (level + 1) _ _ (delimited_prettyMembers level ms rest), ih hms _ _ hrest]
    rfl

/-- The indented text of a value consists of the tokens of the value. -/
theorem Legible.spells_prettyChars {room : Nat} {v : Json} (h : Legible room v) (level : Nat) :
    Spells (prettyChars level v) (tokens v) := by
  -- the elements of a bracket are written one level further in, so the level varies
  induction h generalizing level with
  | null => exact spells_of_run fun _ => rfl
  | bool room b => cases b <;> exact spells_of_run fun _ => rfl
  | number room hn => exact fun before rest hrest => scanAfter_number before hn hrest
  | string room s => exact fun before rest _ => scanAfter_quote before s rest
  | @array room items _ ih =>
    cases items with
    | nil => exact fun _ _ _ => rfl
    | cons v vs =>
      intro before rest hrest
      obtain ⟨hv, hvs⟩ := List.forall_mem_cons.mp ih
      have hopen : ∀ text, scanAfter before ('[' :: text) = scanAfter (.openArray :: before) text :=
        fun _ => rfl
      simp only [prettyChars, tokens, List.cons_append, List.append_assoc, List.reverse_cons,
        List.reverse_append]
      rw [hopen, scanAfter_newline, hv (level + 1) _ _ (delimited_prettyItems level vs rest),
        spells_prettyItems level hvs _ _ hrest]
      rfl
  | @object room members _ ih =>
    cases members with
    | nil => exact fun _ _ _ => rfl
    | cons m ms =>
      intro before rest hrest
      obtain ⟨hm, hms⟩ := List.forall_mem_cons.mp ih
      have hopen : ∀ text,
          scanAfter before ('\x7b' :: text) = scanAfter (.openObject :: before) text :=
        fun _ => rfl
      simp only [prettyChars, tokens, List.cons_append, List.append_assoc, List.reverse_cons,
        List.reverse_append]
      rw [hopen, scanAfter_name, hm (level + 1) _ _ (delimited_prettyMembers level ms rest),
        spells_prettyMembers level hms _ _ hrest]
      rfl

theorem delimited_of_blank {ending : List Char} (h : ∀ c ∈ ending, isBlank c = true) :
    Delimited ending := by
  intro c hc
  have hblank := h c (List.mem_of_mem_head? hc)
  simp only [isBlank, Bool.or_eq_true, beq_iff_eq] at hblank
  rcases hblank with ((rfl | rfl) | rfl) | rfl <;> decide

/-- Blanks at the end of a text add nothing. -/
theorem scanAfter_of_blank (before : List Token) {ending : List Char}
    (h : ∀ c ∈ ending, isBlank c = true) : scanAfter before ending = some before.reverse := by
  induction ending with
  | nil => rfl
  | cons c cs ih =>
    obtain ⟨hc, hcs⟩ := List.forall_mem_cons.mp h
    have hstep : (Lexer.mk before .blank).step c = some ⟨before, .blank⟩ := if_pos hc
    rw [scanAfter, Lexer.run, hstep]
    exact ih hcs

/-- **Scanning undoes the layout.** The tokens of the indented text of a value are
the tokens of the value, with or without blanks after it. -/
theorem Legible.scan_pretty {room : Nat} {v : Json} (h : Legible room v) {ending : List Char}
    (hend : ∀ c ∈ ending, isBlank c = true) :
    scan (v.pretty.toList ++ ending) = some (tokens v) := by
  have hspells := h.spells_prettyChars 0 [] ending (delimited_of_blank hend)
  rw [List.append_nil, scanAfter_of_blank _ hend, List.reverse_reverse] at hspells
  rw [pretty, String.toList_ofList]
  exact hspells

end Json

end PriceTaint
