/-
Lists and arrays in general.

Facts that more than one part of the theory needs and that are about no part of a
program: what is left when repetitions are removed, what a loop has pushed when it
ends, what a partial function does to all members of a list, and what is found in an
array after it has grown or changed.
-/
import Mathlib.Data.List.Basic

set_option autoImplicit false

namespace List

variable {α β : Type}

/-! ## Repetitions -/

/-- One more element at the end stays there unless it has occurred. -/
theorem eraseDups_concat [BEq α] [LawfulBEq α] (xs : List α) (x : α) :
    (xs ++ [x]).eraseDups = xs.eraseDups ++ if xs.contains x then [] else [x] := by
  rw [eraseDups_append, removeAll, filter_singleton, elem_eq_contains]
  cases xs.contains x <;> rfl

/-- Removing repetitions leaves none. -/
theorem nodup_eraseDups [BEq α] [LawfulBEq α] : (xs : List α) → xs.eraseDups.Nodup
  | [] => nodup_nil
  | x :: xs => by
    rw [eraseDups_cons, nodup_cons, mem_eraseDups, mem_filter]
    refine ⟨?_, nodup_eraseDups _⟩
    rintro ⟨-, hne⟩
    simp at hne
termination_by xs => xs.length
decreasing_by
  rw [length_cons]
  exact Nat.lt_succ_of_le (length_filter_le _ _)

/-! ## Collecting -/

/-- Collecting over some of the elements is collecting nothing from the others. -/
theorem flatMap_filter_eq (chosen : α → Bool) (collect : α → List β) (xs : List α) :
    (xs.filter chosen).flatMap collect
      = xs.flatMap fun x => if chosen x then collect x else [] := by
  induction xs with
  | nil => rfl
  | cons x xs ih =>
    rw [filter_cons, flatMap_cons, ← ih]
    by_cases hx : chosen x = true
    · rw [if_pos hx, if_pos hx, flatMap_cons]
    · rw [if_neg hx, if_neg hx, nil_append]

/-- A loop whose every turn adds to the end has added, when it ends, what its turns add,
one after the other. -/
theorem toList_foldl_of_step {step : Array β → α → Array β} {added : α → List β}
    (hstep : ∀ out x, (step out x).toList = out.toList ++ added x) (xs : List α)
    (out : Array β) : (xs.foldl step out).toList = out.toList ++ xs.flatMap added := by
  induction xs generalizing out with
  | nil => rw [foldl_nil, flatMap_nil, append_nil]
  | cons x xs ih => rw [foldl_cons, ih, hstep, flatMap_cons, append_assoc]

theorem forall_mem_snoc {P : α → Prop} {xs : List α} {x : α} (hxs : ∀ y ∈ xs, P y)
    (hx : P x) : ∀ y ∈ xs ++ [x], P y :=
  forall_mem_append.mpr ⟨hxs, forall_mem_singleton.mpr hx⟩

/-! ## Partial functions -/

/-- Elements that are all found are found in order. -/
theorem mapM_eq_some_map {find? : α → Option β} {get : α → β} {xs : List α}
    (h : ∀ x ∈ xs, find? x = some (get x)) : xs.mapM find? = some (xs.map get) := by
  induction xs with
  | nil => rfl
  | cons x xs ih =>
    obtain ⟨hx, hxs⟩ := forall_mem_cons.mp h
    rw [mapM_cons, hx, ih hxs]
    rfl

/-- What is undone element by element is undone for the list. -/
theorem mapM_map_eq_some {encode : α → β} {decode : β → Option α} {xs : List α}
    (h : ∀ x ∈ xs, decode (encode x) = some x) : (xs.map encode).mapM decode = some xs := by
  have hfound : ∀ x ∈ xs, (decode ∘ encode) x = some (id x) := h
  rw [mapM_map, mapM_eq_some_map hfound, map_id]

theorem exists_of_mem_mapM {decode : β → Option α} {vs : List β} {xs : List α}
    (h : vs.mapM decode = some xs) {x : α} (hx : x ∈ xs) : ∃ v, decode v = some x := by
  induction vs generalizing xs with
  | nil =>
    cases h
    cases hx
  | cons v vs ih =>
    simp only [mapM_cons, Option.bind_eq_bind, Option.bind_eq_some_iff, Option.pure_def,
      Option.some.injEq] at h
    obtain ⟨y, hy, ys, hys, rfl⟩ := h
    rcases mem_cons.mp hx with rfl | hx
    · exact ⟨v, hy⟩
    · exact ih hys hx

end List

namespace Option

/-- Where something is found, a default is not needed. -/
theorem map_eq_some_getD {α β : Type} {found : Option α} {x : α} (h : found = some x)
    (part : α → β) (default : β) : found.map part = some ((found.map part).getD default) := by
  rw [h]
  rfl

end Option

namespace Array

variable {α : Type}

/-! ## Places in an array -/

theorem exists_getElem?_of_lt {xs : Array α} {i : Nat} (h : i < xs.size) :
    ∃ x, xs[i]? = some x :=
  ⟨_, getElem?_eq_getElem h⟩

/-- What is found after something was added was there before, or is new. -/
theorem getElem?_push_cases {xs : Array α} {x y : α} {i : Nat}
    (h : (xs.push x)[i]? = some y) : xs[i]? = some y ∨ i = xs.size ∧ y = x := by
  rw [getElem?_push] at h
  split at h
  · next hi => exact .inr ⟨hi, (Option.some.inj h).symm⟩
  · exact .inl h

/-- What is found after one place was changed was there before, or is at that place. -/
theorem getElem?_modify_cases {xs : Array α} {change : α → α} {y : α} {i j : Nat}
    (h : (xs.modify i change)[j]? = some y) :
    xs[j]? = some y ∨ i = j ∧ ∃ x, xs[j]? = some x ∧ change x = y := by
  rw [getElem?_modify] at h
  split at h
  · next hi => exact .inr ⟨hi, Option.map_eq_some_iff.mp h⟩
  · exact .inl h

theorem getElem?_push_of_some {xs : Array α} {x y : α} {i : Nat} (h : xs[i]? = some y) :
    (xs.push x)[i]? = some y := by
  have hlt := (getElem?_eq_some_iff.mp h).1
  rw [getElem?_push, if_neg (Nat.ne_of_lt hlt), h]

theorem getElem?_modify_of_some {xs : Array α} (change : α → α) {y : α} (i : Nat) {j : Nat}
    (h : xs[j]? = some y) : (xs.modify i change)[j]? = some (if i = j then change y else y) := by
  rw [getElem?_modify, h]
  split <;> rfl

/-- What is in the beginning of an array is in the array, at the same place. -/
theorem getElem?_of_prefix {xs ys : Array α} (h : xs.toList <+: ys.toList) {i : Nat} {x : α}
    (hx : xs[i]? = some x) : ys[i]? = some x := by
  rw [← getElem?_toList] at hx ⊢
  obtain ⟨rest, hrest⟩ := h
  obtain ⟨hlt, -⟩ := List.getElem?_eq_some_iff.mp hx
  rw [← hrest, List.getElem?_append_left hlt, hx]

end Array
