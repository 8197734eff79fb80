/-
Where calls go, and by which names.

The analysis asks of every call whether it can be entered and whether it goes by a name
of some set. Here both are said by what the program holds. A call can be entered if it has
been resolved to a function that is there and is no modifier. Such a call goes by the name
of the function and by its signature, a call of a member by the name of the member, and a
built-in by its own name, though it leads nowhere; all other calls have no name.
-/
import PriceTaint.Taint.Dispatch

set_option autoImplicit false

namespace PriceTaint

namespace Program

/-- The call has been resolved to a function of the program that is no modifier. -/
structure GoesTo (p : Program) (c : Call) (g : FunctionId) (f : Function) : Prop where
  callee : c.callee = .resolved (.function g)
  found : p.functionAt? g = some f
  kind : f.kind ≠ .modifier

/-- The call goes by the name. -/
inductive GoesBy (p : Program) (c : Call) : String → Prop where
  | name {g : FunctionId} {f : Function} (h : p.GoesTo c g f) : GoesBy p c f.name
  | signature {g : FunctionId} {f : Function} (h : p.GoesTo c g f) : GoesBy p c f.signature
  | member {name : String} (h : c.callee = .member name) : GoesBy p c name
  | builtin {name : String} (h : c.callee = .resolved (.builtin name)) : GoesBy p c name

variable {p : Program} {c : Call}

theorem dispatch_eq_body_iff {g : FunctionId} {f : Function} :
    p.dispatch c = .body g f ↔ p.GoesTo c g f := by
  constructor
  · intro h
    unfold dispatch at h
    split at h
    · next id hcallee =>
      split at h
      · next function hfound =>
        split at h
        · cases h
        · next hkind =>
          cases h
          exact ⟨hcallee, hfound, fun hmod => hkind (beq_iff_eq.mpr hmod)⟩
      · cases h
    · cases h
    · cases h
  · rintro ⟨hcallee, hfound, hkind⟩
    have hplain : ¬ f.isModifier = true := fun hmod => hkind (beq_iff_eq.mp hmod)
    simp only [dispatch, hcallee, hfound, if_neg hplain]

theorem dispatch_eq_member_iff {name : String} :
    p.dispatch c = .member name ↔ c.callee = .member name := by
  constructor
  · intro h
    unfold dispatch at h
    split at h
    · split at h
      · split at h <;> cases h
      · cases h
    · next member hcallee =>
      cases h
      exact hcallee
    · cases h
  · intro hcallee
    simp only [dispatch, hcallee]

/-- What is not lost from sight goes to a body or to a member. -/
theorem dispatch_ne_unseen_iff :
    p.dispatch c ≠ .unseen ↔ (∃ g f, p.GoesTo c g f) ∨ ∃ name, c.callee = .member name := by
  simp only [← dispatch_eq_body_iff, ← dispatch_eq_member_iff (p := p)]
  cases p.dispatch c <;> simp

/-- The analysis says of a call that it goes by a name of the set exactly if it does. -/
theorem callMatches_iff (p : Program) (c : Call) (names : NameSet) :
    p.callMatches c names = true ↔ ∃ name ∈ names.names, p.GoesBy c name := by
  simp only [callMatches, NameSet.contains]
  constructor
  · intro h
    cases hd : p.dispatch c with
    | body g f =>
      have hgoes := dispatch_eq_body_iff.mp hd
      rw [hd, Bool.or_eq_true, List.contains_iff_mem, List.contains_iff_mem] at h
      rcases h with hname | hsignature
      · exact ⟨f.name, hname, .name hgoes⟩
      · exact ⟨f.signature, hsignature, .signature hgoes⟩
    | member name =>
      rw [hd, List.contains_iff_mem] at h
      exact ⟨name, h, .member (dispatch_eq_member_iff.mp hd)⟩
    | unseen =>
      rw [hd] at h
      dsimp only at h
      split at h
      · next name hcallee => exact ⟨name, List.contains_iff_mem.mp h, .builtin hcallee⟩
      · cases h
  · rintro ⟨name, hmem, hgoes⟩
    have hin : names.names.contains name = true := List.contains_iff_mem.mpr hmem
    cases hgoes with
    | name hto => simp only [dispatch_eq_body_iff.mpr hto, hin, Bool.true_or]
    | signature hto => simp only [dispatch_eq_body_iff.mpr hto, hin, Bool.or_true]
    | member hcallee => simp only [dispatch_eq_member_iff.mpr hcallee, hin]
    | builtin hcallee => simp only [dispatch, hcallee, hin]

end Program

end PriceTaint
