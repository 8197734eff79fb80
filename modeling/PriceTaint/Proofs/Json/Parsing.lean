/-
The values of written text.

Reading the tokens of a legible value takes the parser from waiting for a value
to having it, and leaves the brackets around it alone. Together with the tokens
of written text this gives the round trip of the JSON layer, `parse?_pretty`:
what the indented layout writes is read back as the same value, members and
elements in the same order.
-/
import PriceTaint.Json.Reader
import PriceTaint.Proofs.Json.Scanning

set_option autoImplicit false

namespace PriceTaint.Json

namespace Parser

theorem run_of_step {p q : Parser} {t : Token} (h : p.step t = some q) (ts : List Token) :
    p.run (t :: ts) = q.run ts := by
  rw [run, h]

theorem close_of_le {depth : Nat} (h : depth ≤ maxNesting) (v : Json) : close depth v = v :=
  if_pos h

/-- Where a value may start: also at the first place of an array. -/
def Expects (await : Await) : Prop := await = .value ∨ await = .item

theorem step_of_expects {await : Await} (hawait : Expects await) (frames : List Frame)
    (depth : Nat) {t : Token} (ht : t ≠ .closeArray) :
    (Parser.mk frames depth await).step t = (Parser.mk frames depth await).startValue t := by
  rcases hawait with rfl | rfl
  · rfl
  · cases t with
    | closeArray => exact absurd rfl ht
    | _ => rfl

/-- The tokens take the parser, from any place where a value may start, to having
read the value. The brackets that stand around the place are not touched, and of
those that may still be opened `room` are enough. -/
def Yields (room : Nat) (tokens : List Token) (v : Json) : Prop :=
  ∀ frames depth await rest, Expects await → depth + room ≤ maxNesting →
    (Parser.mk frames depth await).run (tokens ++ rest)
      = (Parser.mk frames depth (.next v)).run rest

theorem yields_atom (room : Nat) {t : Token} {v : Json} (ht : t ≠ .closeArray)
    (hstart : ∀ p : Parser, p.startValue t = some ⟨p.frames, p.depth, .next v⟩) :
    Yields room [t] v := by
  intro frames depth await rest hawait _
  exact run_of_step ((step_of_expects hawait frames depth ht).trans (hstart _)) rest

/-- From inside an array, after one of its elements, to behind it. -/
theorem run_itemTokens {room : Nat} {vs : List Json} (h : ∀ w ∈ vs, Yields room (tokens w) w)
    (v : Json) (before : List Json) (frames : List Frame) {depth : Nat} (rest : List Token)
    (hdepth : depth + room ≤ maxNesting) :
    (Parser.mk (.array before :: frames) depth (.next v)).run (itemTokens vs ++ rest)
      = (Parser.mk frames (depth - 1) (.next (.array (before.reverse ++ v :: vs)))).run rest := by
  -- on the elements that are left; the one just read moves to those before it
  induction vs generalizing v before with
  | nil =>
    have hstep : (Parser.mk (.array before :: frames) depth (.next v)).step .closeArray
        = some ⟨frames, depth - 1, .next (.array (before.reverse ++ [v]))⟩ := by
      rw [← List.reverse_cons, ← close_of_le (by omega : depth ≤ maxNesting) (.array _)]
      rfl
    exact run_of_step hstep rest
  | cons w ws ih =>
    obtain ⟨hw, hws⟩ := List.forall_mem_cons.mp h
    rw [itemTokens, List.cons_append, List.cons_append, List.append_assoc]
    calc _ = (Parser.mk (.array (v :: before) :: frames) depth .value).run
            (tokens w ++ (itemTokens ws ++ rest)) := run_of_step rfl _
      _ = (Parser.mk (.array (v :: before) :: frames) depth (.next w)).run
            (itemTokens ws ++ rest) := hw _ _ _ _ (.inl rfl) hdepth
      _ = _ := ih hws w (v :: before)
      _ = _ := by rw [List.reverse_cons, List.append_assoc, List.singleton_append]

/-- From inside an object, after one of its members, to behind it. -/
theorem run_memberTokens {room : Nat} {ms : List (String × Json)}
    (h : ∀ m ∈ ms, Yields room (tokens m.2) m.2) (name : String) (v : Json)
    (before : List (String × Json)) (frames : List Frame) {depth : Nat} (rest : List Token)
    (hdepth : depth + room ≤ maxNesting) :
    (Parser.mk (.member before true (some name) :: frames) depth (.next v)).run
        (memberTokens ms ++ rest)
      = (Parser.mk frames (depth - 1)
          (.next (.object (before.reverse ++ (name, v) :: ms)))).run rest := by
  induction ms generalizing name v before with
  | nil =>
    have hstep : (Parser.mk (.member before true (some name) :: frames) depth (.next v)).step
          .closeObject
        = some ⟨frames, depth - 1, .next (.object (before.reverse ++ [(name, v)]))⟩ := by
      rw [← List.reverse_cons, ← close_of_le (by omega : depth ≤ maxNesting) (.object _)]
      rfl
    exact run_of_step hstep rest
  | cons m ms ih =>
    obtain ⟨hm, hms⟩ := List.forall_mem_cons.mp h
    simp only [memberTokens, List.cons_append, List.append_assoc]
    calc _ = (Parser.mk (.member ((name, v) :: before) true (some m.1) :: frames) depth .value).run
            (tokens m.2 ++ (memberTokens ms ++ rest)) := rfl
      _ = (Parser.mk (.member ((name, v) :: before) true (some m.1) :: frames) depth
            (.next m.2)).run (memberTokens ms ++ rest) := hm _ _ _ _ (.inl rfl) hdepth
      _ = _ := ih hms m.1 m.2 ((name, v) :: before)
      _ = _ := by rw [List.reverse_cons, List.append_assoc, List.singleton_append]

end Parser

open PriceTaint.Json.Parser

/-- The tokens of a legible value are read as that value. -/
theorem Legible.yields_tokens {room : Nat} {v : Json} (h : Legible room v) :
    Yields room (tokens v) v := by
  induction h with
  | null room => exact yields_atom room (by rintro ⟨⟩) fun _ => rfl
  | bool room b => exact yields_atom room (by rintro ⟨⟩) fun _ => rfl
  | string room s => exact yields_atom room (by rintro ⟨⟩) fun _ => rfl
  | number room hn =>
    refine yields_atom room (by rintro ⟨⟩) fun p => ?_
    rw [startValue, atom, if_pos hn.inRange]
    · rfl
    · rintro ⟨⟩
    · rintro ⟨⟩
  | @array room items _ ih =>
    intro frames depth await rest hawait hdepth
    -- the bracket takes one from the room and adds one to the depth
    have hinner : depth + 1 + room ≤ maxNesting := by omega
    have hopen := step_of_expects hawait frames depth (t := .openArray) (by rintro ⟨⟩)
    cases items with
    | nil =>
      have hclose : (Parser.mk (.array [] :: frames) (depth + 1) .item).step .closeArray
          = some ⟨frames, depth, .next (.array [])⟩ := by
        rw [← close_of_le (by omega : depth + 1 ≤ maxNesting) (.array [])]
        rfl
      exact (run_of_step hopen _).trans (run_of_step hclose rest)
    | cons v vs =>
      obtain ⟨hv, hvs⟩ := List.forall_mem_cons.mp ih
      rw [tokens, List.cons_append, List.cons_append, List.append_assoc]
      calc _ = (Parser.mk (.array [] :: frames) (depth + 1) .item).run
              (tokens v ++ (itemTokens vs ++ rest)) := run_of_step hopen _
        _ = _ := hv _ _ _ _ (.inr rfl) hinner
        _ = _ := run_itemTokens hvs v [] frames rest hinner
  | @object room members _ ih =>
    intro frames depth await rest hawait hdepth
    have hinner : depth + 1 + room ≤ maxNesting := by omega
    have hopen := step_of_expects hawait frames depth (t := .openObject) (by rintro ⟨⟩)
    cases members with
    | nil =>
      have hclose : (Parser.mk frames (depth + 1) (.name [] true true)).step .closeObject
          = some ⟨frames, depth, .next (.object [])⟩ := by
        rw [← close_of_le (by omega : depth + 1 ≤ maxNesting) (.object [])]
        rfl
      exact (run_of_step hopen _).trans (run_of_step hclose rest)
    | cons m ms =>
      obtain ⟨hm, hms⟩ := List.forall_mem_cons.mp ih
      simp only [tokens, List.cons_append, List.append_assoc]
      calc _ = (Parser.mk (.member [] true (some m.1) :: frames) (depth + 1) .value).run
              (tokens m.2 ++ (memberTokens ms ++ rest)) := run_of_step hopen _
        _ = _ := hm _ _ _ _ (.inl rfl) hinner
        _ = _ := run_memberTokens hms m.1 m.2 [] frames rest hinner

/-- **The JSON layer keeps values.** What is written for a legible value is read
back as the same value, also if blanks follow. -/
theorem parse?_pretty_append {v : Json} (h : Legible maxNesting v) (ending : String)
    (hend : ∀ c ∈ ending.toList, Token.isBlank c = true) :
    parse? (v.pretty ++ ending) = some v := by
  have hrun := h.yields_tokens [] 0 .value [] (.inl rfl) (Nat.zero_add _).le
  rw [List.append_nil] at hrun
  rw [parse?, String.toList_append, h.scan_pretty hend, Option.bind_some, ofTokens?, hrun]
  rfl

theorem parse?_pretty {v : Json} (h : Legible maxNesting v) : parse? v.pretty = some v := by
  have hparse := parse?_pretty_append h "" (List.forall_mem_nil _)
  rwa [String.append_empty] at hparse

end PriceTaint.Json
