/-
The order of texts is the order of their bytes.

Texts are compared character by character, and characters by their code points. In UTF-8 this
comes to the same as comparing bytes, although characters have one to four of them. The longer
the form of a character, the higher its first byte; and forms of one length have the digits of
the code point as their bytes, the highest first. So the forms of two characters part at a
place that both have, and there the lower character has the lower byte: what follows has no
say.
-/
import Mathlib.Tactic.SplitIfs

set_option autoImplicit false

namespace PriceTaint.Text

/-- The bytes of a text. -/
def bytes (s : String) : List UInt8 := s.toUTF8.data.toList

theorem bytes_eq_flatMap (s : String) : bytes s = s.toList.flatMap String.utf8EncodeChar := by
  rw [bytes, String.toUTF8_eq_toByteArray, ← String.utf8Encode_toList, List.utf8Encode,
    List.data_toByteArray, List.toList_toArray]

/-! ## Where two rows of bytes part -/

/-- Two rows of bytes part at a place that both have, and there the first is lower. -/
inductive PartsBelow : List UInt8 → List UInt8 → Prop where
  | here {a b : UInt8} (h : a < b) (as bs : List UInt8) : PartsBelow (a :: as) (b :: bs)
  | later {as bs : List UInt8} (a : UInt8) (h : PartsBelow as bs) : PartsBelow (a :: as) (a :: bs)

/-- What follows such a place does not matter. -/
theorem PartsBelow.append_lt {as bs : List UInt8} (h : PartsBelow as bs) (as' bs' : List UInt8) :
    as ++ as' < bs ++ bs' := by
  induction h with
  | here h as bs => exact .rel h
  | later a _ ih => exact .cons ih

/-- Bytes are compared as numbers, and the next ones only if they are equal. -/
theorem partsBelow_cons {m n : Nat} {as bs : List UInt8} (hle : m ≤ n) (hn : n < 256)
    (heq : m = n → PartsBelow as bs) :
    PartsBelow (UInt8.ofNat m :: as) (UInt8.ofNat n :: bs) := by
  rcases Nat.lt_or_eq_of_le hle with hlt | rfl
  · refine .here ?_ as bs
    rwa [UInt8.lt_iff_toNat_lt, UInt8.toNat_ofNat_of_lt' (Nat.lt_trans hlt hn),
      UInt8.toNat_ofNat_of_lt' hn]
  · exact .later _ (heq rfl)

/-! ## The form of a character -/

/-- The first byte of a code point. -/
def leadByte (n : Nat) : Nat :=
  if n ≤ 0x7f then n
  else if n ≤ 0x7ff then n / 64 % 0x20 + 0xc0
  else if n ≤ 0xffff then n / 4096 % 0x10 + 0xe0
  else n / 262144 % 0x08 + 0xf0

/-- The bytes after it: six bits each. -/
def laterBytes (n : Nat) : List UInt8 :=
  if n ≤ 0x7f then []
  else if n ≤ 0x7ff then [.ofNat (n % 0x40 + 0x80)]
  else if n ≤ 0xffff then [.ofNat (n / 64 % 0x40 + 0x80), .ofNat (n % 0x40 + 0x80)]
  else [.ofNat (n / 4096 % 0x40 + 0x80), .ofNat (n / 64 % 0x40 + 0x80), .ofNat (n % 0x40 + 0x80)]

theorem utf8EncodeChar_eq (c : Char) :
    String.utf8EncodeChar c = UInt8.ofNat (leadByte c.toNat) :: laterBytes c.toNat := by
  dsimp only [String.utf8EncodeChar, leadByte, laterBytes, Char.toNat]
  split_ifs <;> rfl

section CodePoints

variable {m n : Nat}

theorem leadByte_lt (hn : n < 0x110000) : leadByte n < 256 := by
  unfold leadByte
  split_ifs <;> omega

theorem leadByte_le (hlt : m < n) (hn : n < 0x110000) : leadByte m ≤ leadByte n := by
  unfold leadByte
  split_ifs <;> omega

/-- With the same first byte, the bytes after it tell which code point is lower. -/
theorem partsBelow_laterBytes (hlt : m < n) (hn : n < 0x110000) (hlead : leadByte m = leadByte n) :
    PartsBelow (laterBytes m) (laterBytes n) := by
  unfold leadByte at hlead
  unfold laterBytes
  -- forms of different lengths have different first bytes, and a form of one byte is the code
  -- point itself; what is left are two forms of two, of three or of four bytes
  split_ifs at hlead ⊢ <;> try omega
  · exact partsBelow_cons (by omega) (by omega) (by omega)
  · refine partsBelow_cons (by omega) (by omega) fun hfirst => ?_
    exact partsBelow_cons (by omega) (by omega) (by omega)
  · refine partsBelow_cons (by omega) (by omega) fun hfirst => ?_
    refine partsBelow_cons (by omega) (by omega) fun hsecond => ?_
    exact partsBelow_cons (by omega) (by omega) (by omega)

end CodePoints

theorem toNat_lt (c : Char) : c.toNat < 0x110000 := by
  rcases c.valid with hlow | hhigh
  · exact Nat.lt_trans hlow (by decide)
  · exact hhigh.2

/-- The form of a lower character parts below that of a higher one. -/
theorem partsBelow_utf8EncodeChar {c d : Char} (h : c < d) :
    PartsBelow (String.utf8EncodeChar c) (String.utf8EncodeChar d) := by
  have hlt : c.toNat < d.toNat := h
  have hd := toNat_lt d
  rw [utf8EncodeChar_eq, utf8EncodeChar_eq]
  exact partsBelow_cons (leadByte_le hlt hd) (leadByte_lt hd) (partsBelow_laterBytes hlt hd)

/-! ## Texts -/

theorem flatMap_utf8EncodeChar_lt {cs ds : List Char} (h : List.Lex (· < ·) cs ds) :
    cs.flatMap String.utf8EncodeChar < ds.flatMap String.utf8EncodeChar := by
  induction h with
  | @nil d ds =>
    rw [List.flatMap_nil, List.flatMap_cons, utf8EncodeChar_eq]
    exact .nil
  | cons _ ih =>
    rw [List.flatMap_cons, List.flatMap_cons]
    exact List.append_left_lt ih
  | rel hlt =>
    rw [List.flatMap_cons, List.flatMap_cons]
    exact (partsBelow_utf8EncodeChar hlt).append_lt _ _

/-- A lower text has lower bytes. -/
theorem bytes_lt_of_lt {s t : String} (h : s < t) : bytes s < bytes t := by
  rw [bytes_eq_flatMap, bytes_eq_flatMap]
  exact flatMap_utf8EncodeChar_lt h

end PriceTaint.Text
