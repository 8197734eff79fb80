/-
The numerals of indices.

An index is written as its decimal digits. This file shows that the row of digits
is a numeral of the JSON grammar, that reading it gives the index back as long as
it is below `2^64`, and that such a numeral is always inside the range of scores,
so that a reader of values does not put it aside as unreadable.
-/
import Mathlib.Data.List.TakeWhile
import PriceTaint.Decimal.Score

set_option autoImplicit false

namespace PriceTaint

/-! ## Rows of digits -/

namespace Numeral

theorem isDigit_of_mem_toDigits {n : Nat} {c : Char} (hc : c ∈ Nat.toDigits 10 n) :
    c.isDigit = true :=
  Nat.isDigit_of_mem_toDigits (by decide) (by decide) hc

/-- The digits of a positive number do not start with a zero. -/
theorem toDigits_eq_cons {n : Nat} (hn : 0 < n) :
    ∃ c cs, Nat.toDigits 10 n = c :: cs ∧ c ≠ '0' := by
  induction n using Nat.base_induction 10 (by decide) with
  | single m hm =>
    refine ⟨m.digitChar, [], Nat.toDigits_of_lt_base hm, fun h0 => ?_⟩
    have hdigit : '0'.toNat = 48 + m := h0 ▸ Nat.toNat_digitChar_of_lt_ten hm
    have hzero : '0'.toNat = 48 := rfl
    omega
  | digit m k hk hm ih =>
    obtain ⟨c, cs, hcs, hc⟩ := ih hm
    refine ⟨c, cs ++ Nat.toDigits 10 k, ?_, hc⟩
    rw [← Nat.toDigits_append_toDigits (by decide) hm hk, hcs, List.cons_append]

/-- The digits of a number are a row without a superfluous zero. -/
theorem isWhole_toDigits (n : Nat) : isWhole (Nat.toDigits 10 n) = true := by
  rcases Nat.eq_zero_or_pos n with rfl | hn
  · rfl
  obtain ⟨c, cs, hcs, hc⟩ := toDigits_eq_cons hn
  have hdigits : ∀ d ∈ c :: cs, d.isDigit = true := fun d hd =>
    isDigit_of_mem_toDigits (hcs ▸ hd)
  rw [hcs, isWhole.eq_3 _ _ (fun h0 _ => hc h0)]
  simp only [Bool.and_eq_true, bne_iff_ne, ne_eq, List.all_eq_true]
  exact ⟨⟨hdigits c List.mem_cons_self, hc⟩, fun d hd => hdigits d (List.mem_cons_of_mem c hd)⟩

/-! ## Reading an index -/

theorem text_ofNat (n : Nat) : (ofNat n).text = Nat.toDigits 10 n := by
  simp [text, ofNat]

theorem unsigned?_toDigits (n : Nat) :
    unsigned? false (Nat.toDigits 10 n) = some (ofNat n) := by
  have htake : (Nat.toDigits 10 n).takeWhile Char.isDigit = Nat.toDigits 10 n :=
    List.takeWhile_eq_self_iff.mpr fun _ hc => isDigit_of_mem_toDigits hc
  have hdrop : (Nat.toDigits 10 n).dropWhile Char.isDigit = [] :=
    List.dropWhile_eq_nil_iff.mpr fun _ hc => isDigit_of_mem_toDigits hc
  simp [unsigned?, htake, hdrop, isWhole_toDigits, tail?, ofNat]

/-- The text of an index is a numeral, and it is read as that index. -/
theorem ofText?_text_ofNat (n : Nat) : ofText? (ofNat n).text = some (ofNat n) := by
  rw [text_ofNat]
  have hsign : ∀ cs, Nat.toDigits 10 n ≠ '-' :: cs := fun cs hcs => by
    have hminus : Char.isDigit '-' = true :=
      isDigit_of_mem_toDigits (hcs ▸ List.mem_cons_self)
    exact absurd hminus (by decide)
  rw [ofText?.eq_2 _ hsign, unsigned?_toDigits]

theorem toIndex?_ofNat {n : Nat} (hn : n < indexLimit) : (ofNat n).toIndex? = some n := by
  simp [toIndex?, ofNat, value, hn]

theorem toIndex?_lt {m : Numeral} {n : Nat} (h : m.toIndex? = some n) : n < indexLimit := by
  simp only [toIndex?] at h
  split at h
  · cases h
  split at h
  · rename_i hlt
    cases h
    exact hlt
  · cases h

end Numeral

/-! ## The range of indices -/

namespace Score

/-- As long as the number read so far fits 64 bits, the digits are all kept: the
power of ten stays zero. -/
theorem foldl_pushWhole {digits : List Char} {start : Nat}
    (h : Nat.ofDigitChars 10 digits start < Numeral.indexLimit) :
    digits.foldl Leading.pushWhole ⟨start, 0⟩ = ⟨Nat.ofDigitChars 10 digits start, 0⟩ := by
  induction digits generalizing start with
  | nil => rfl
  | cons c cs ih =>
    rw [Nat.ofDigitChars_cons] at h ⊢
    -- what has been read only grows, so it fits whenever the final number does
    have hfits : 10 * start + (c.toNat - '0'.toNat) < Numeral.indexLimit := by
      rw [Nat.ofDigitChars_eq_ofDigitChars_zero] at h
      have hpow : 1 ≤ 10 ^ cs.length := Nat.one_le_pow _ _ (by decide)
      calc 10 * start + (c.toNat - '0'.toNat)
          ≤ 10 ^ cs.length * (10 * start + (c.toNat - '0'.toNat)) := Nat.le_mul_of_pos_left _ hpow
        _ ≤ _ := Nat.le_add_right _ _
        _ < Numeral.indexLimit := h
    rw [List.foldl_cons, ← ih h]
    rw [Nat.mul_comm] at hfits
    rw [Leading.pushWhole, if_pos ⟨rfl, decide_eq_true hfits⟩, Nat.mul_comm]

/-- The numeral of an index is inside the range of scores. -/
theorem inRange_ofNat {n : Nat} (hn : n < Numeral.indexLimit) :
    inRange (Numeral.ofNat n) = true := by
  have hleading : leading (Numeral.ofNat n) = ⟨n, 0⟩ := by
    have hdigits : Nat.ofDigitChars 10 (Nat.toDigits 10 n) 0 < Numeral.indexLimit := by
      rwa [Nat.ofDigitChars_ten_toDigits]
    simp only [leading, Numeral.ofNat, foldl_pushWhole hdigits, Nat.ofDigitChars_ten_toDigits,
      Leading.pushFraction, Numeral.power, Numeral.value]
    rfl
  simp [inRange, hleading]

end Score

end PriceTaint
