/-
What the key of a finding tells.

The key joins the scanner and the first location with colons and marks no colon inside a
name, so it is a text that can be cut in more than one way. What is lost is where to cut, and
nothing else: once it is known how many colons belong to the scanner and how many to the
contract, the key gives back everything that it was made from. The node needs no such help,
because digits are no colons.

So findings of different origin can have the same key, but only if a scanner or a contract has
a colon in its name.
-/
import Std.Data.String.ToNat
import PriceTaint.Finding.Basic

set_option autoImplicit false

namespace PriceTaint

/-! ## Colons in a text -/

/-- The number of colons in a text. -/
def colons (s : String) : Nat := s.toList.count ':'

/-- A text is cut at a colon in one way only, once it is known how many colons come before. -/
theorem eq_and_eq_of_append_colon {front front' rest rest' : List Char}
    (h : front ++ ':' :: rest = front' ++ ':' :: rest')
    (hcount : front.count ':' = front'.count ':') : front = front' ∧ rest = rest' := by
  induction front generalizing front' with
  | nil =>
    cases front' with
    | nil => exact ⟨rfl, (List.cons.inj h).2⟩
    | cons c front' =>
      -- the second front starts with the colon that ends the first
      obtain ⟨rfl, -⟩ := List.cons.inj h
      rw [List.count_nil, List.count_cons_self] at hcount
      omega
  | cons c front ih =>
    cases front' with
    | nil =>
      obtain ⟨rfl, -⟩ := List.cons.inj h
      rw [List.count_nil, List.count_cons_self] at hcount
      omega
    | cons c' front' =>
      obtain ⟨rfl, htail⟩ := List.cons.inj h
      rw [List.count_cons, List.count_cons, Nat.add_right_cancel_iff] at hcount
      obtain ⟨rfl, hrest⟩ := ih htail hcount
      exact ⟨rfl, hrest⟩

/-- The digits of a number are no colons. -/
theorem count_colon_toString (n : Nat) : (toString n).toList.count ':' = 0 := by
  refine List.count_eq_zero.mpr fun hmem => ?_
  rw [Nat.toString_eq_repr, Nat.toList_repr] at hmem
  have hdigit : Char.isDigit ':' = true :=
    Nat.isDigit_of_mem_toDigits (by decide) (by decide) hmem
  exact absurd hdigit (by decide)

namespace Location

/-- What the key of a finding has of its first location. -/
def place (l : Location) : String × String × Nat := (l.contract, l.function, l.node)

/-- The part of a key that comes from a location, after its first colon. -/
def keyTail (l : Location) : List Char :=
  l.contract.toList ++ ':' :: (l.function.toList ++ ':' :: (toString l.node).toList)

theorem count_colon_keyTail (l : Location) :
    l.keyTail.count ':' = colons l.contract + colons l.function + 2 := by
  simp only [keyTail, colons, List.count_append, List.count_cons_self, count_colon_toString]
  omega

/-- A location is read off its part of the key, if it is known where the contract ends. -/
theorem place_eq_of_keyTail_eq {l l' : Location} (h : l.keyTail = l'.keyTail)
    (hcontract : colons l.contract = colons l'.contract) : l.place = l'.place := by
  obtain ⟨hcontracts, hrest⟩ := eq_and_eq_of_append_colon h hcontract
  -- all colons that are left but one belong to the function
  have hfunction : l.function.toList.count ':' = l'.function.toList.count ':' := by
    have hcount := congrArg (List.count ':') h
    rw [count_colon_keyTail, count_colon_keyTail, hcontract] at hcount
    simp only [colons] at hcount
    omega
  obtain ⟨hfunctions, hdigits⟩ := eq_and_eq_of_append_colon hrest hfunction
  have hnodes : l.node = l'.node := Nat.repr_injective (String.toList_injective hdigits)
  rw [place, place, String.toList_injective hcontracts, String.toList_injective hfunctions, hnodes]

end Location

/-! ## Keys -/

namespace Finding

/-- What the key of a finding is made from: its scanner, and the place of its first location,
if it has one. -/
def origin (f : Finding) : String × Option (String × String × Nat) :=
  (f.scannerId, f.locations.head?.map Location.place)

/-- The scanners of two findings have equally many colons, and so have the contracts of their
first locations, if both have one. -/
def SameColons (f g : Finding) : Prop :=
  colons f.scannerId = colons g.scannerId
    ∧ ∀ l ∈ f.locations.head?, ∀ l' ∈ g.locations.head?, colons l.contract = colons l'.contract

/-- There is no colon in the scanner and in the contract of the first location. -/
def PlainNames (f : Finding) : Prop :=
  ':' ∉ f.scannerId.toList ∧ ∀ l ∈ f.locations.head?, ':' ∉ l.contract.toList

/-- The text that is made from an origin. -/
def keyText : String × Option (String × String × Nat) → String
  | (scannerId, none) => scannerId
  | (scannerId, some (contract, function, node)) =>
    scannerId ++ ":" ++ contract ++ ":" ++ function ++ ":" ++ toString node

theorem key_eq (f : Finding) : f.key = keyText f.origin := by
  rw [key, origin]
  cases f.locations <;> rfl

theorem key_of_nil {f : Finding} (h : f.locations = []) : f.key = f.scannerId := by
  rw [key, h]

theorem toList_key_of_cons {f : Finding} {l : Location} {ls : List Location}
    (h : f.locations = l :: ls) : f.key.toList = f.scannerId.toList ++ ':' :: l.keyTail := by
  simp only [key, h, Location.keyTail, String.toList_append, List.append_assoc]
  rfl

/-- A location adds colons to a key. So without one the scanner would need more of them. -/
theorem key_ne_of_nil_of_cons {f g : Finding} {l : Location} {ls : List Location}
    (hf : f.locations = []) (hg : g.locations = l :: ls)
    (hscanner : colons f.scannerId = colons g.scannerId) : f.key ≠ g.key := by
  intro hkey
  have hcount := congrArg (fun s : String => s.toList.count ':') hkey
  simp only [key_of_nil hf, toList_key_of_cons hg, List.count_append,
    List.count_cons_self] at hcount
  simp only [colons] at hscanner
  omega

theorem origin_eq_of_key_eq {f g : Finding} (hkey : f.key = g.key) (hcolons : f.SameColons g) :
    f.origin = g.origin := by
  obtain ⟨hscanner, hcontract⟩ := hcolons
  cases hf : f.locations with
  | nil =>
    cases hg : g.locations with
    | nil =>
      rw [key_of_nil hf, key_of_nil hg] at hkey
      rw [origin, origin, hf, hg, hkey]
    | cons l' ls' => exact absurd hkey (key_ne_of_nil_of_cons hf hg hscanner)
  | cons l ls =>
    cases hg : g.locations with
    | nil => exact absurd hkey.symm (key_ne_of_nil_of_cons hg hf hscanner.symm)
    | cons l' ls' =>
      have htext := congrArg String.toList hkey
      rw [toList_key_of_cons hf, toList_key_of_cons hg] at htext
      obtain ⟨hscanners, htails⟩ := eq_and_eq_of_append_colon htext hscanner
      have hcontracts : colons l.contract = colons l'.contract := by
        apply hcontract
        · rw [hf]
          rfl
        · rw [hg]
          rfl
      have hplaces := Location.place_eq_of_keyTail_eq htails hcontracts
      rw [origin, origin, hf, hg, String.toList_injective hscanners, List.head?_cons,
        List.head?_cons, Option.map_some, Option.map_some, hplaces]

theorem sameColons_of_origin_eq {f g : Finding} (h : f.origin = g.origin) : f.SameColons g := by
  obtain ⟨hscanner, hplaces⟩ := Prod.mk.inj h
  refine ⟨congrArg colons hscanner, fun l hl l' hl' => ?_⟩
  rw [Option.mem_def.mp hl, Option.mem_def.mp hl'] at hplaces
  exact congrArg (fun place => colons place.1) (Option.some.inj hplaces)

theorem PlainNames.sameColons {f g : Finding} (hf : f.PlainNames) (hg : g.PlainNames) :
    f.SameColons g := by
  have hnone : ∀ s : String, ':' ∉ s.toList → colons s = 0 := fun s => List.count_eq_zero.mpr
  constructor
  · rw [hnone _ hf.1, hnone _ hg.1]
  · intro l hl l' hl'
    rw [hnone _ (hf.2 l hl), hnone _ (hg.2 l' hl')]

/-- **What a key tells.** Two findings have the same origin exactly if their keys are equal and
the colons in the names of their scanners and contracts are equally many. So among findings
without such colons, the key tells the origin. -/
theorem key_tells_origin (f g : Finding) :
    (f.origin = g.origin ↔ f.key = g.key ∧ f.SameColons g)
      ∧ (f.PlainNames → g.PlainNames → (f.key = g.key ↔ f.origin = g.origin)) := by
  have hexact : f.origin = g.origin ↔ f.key = g.key ∧ f.SameColons g := by
    constructor
    · intro horigin
      have hkey : f.key = g.key := by rw [key_eq, key_eq, horigin]
      exact ⟨hkey, sameColons_of_origin_eq horigin⟩
    · rintro ⟨hkey, hcolons⟩
      exact origin_eq_of_key_eq hkey hcolons
  refine ⟨hexact, fun hf hg => ?_⟩
  rw [hexact, and_iff_left (hf.sameColons hg)]

/-- A finding of a scanner at a node of a function. -/
def foundAt (scannerId contract function : String) (node : Nat) : Finding :=
  (make scannerId .high .medium "" "").addLocation ⟨contract, function, node, none⟩

/-- Colons in the function do no harm, and the node is told by its digits. -/
theorem key_tells_origin_nodes :
    let f := foundAt "s" "Vault" "lib:sell" 1
    let g := foundAt "s" "Vault" "lib:sell:1" 1
    f.PlainNames ∧ g.PlainNames ∧ (f.key = g.key ↔ f.origin = g.origin) ∧ f.key ≠ g.key := by
  intro f g
  have hf : f.PlainNames := ⟨by decide, by decide⟩
  have hg : g.PlainNames := ⟨by decide, by decide⟩
  have hiff := (key_tells_origin f g).2 hf hg
  exact ⟨hf, hg, hiff, mt hiff.mp (by decide)⟩

/-- Where a name has a colon, the key may not tell: neither whether the colon belongs to the
contract or to the function, nor whether there is a location at all. -/
theorem key_collisions :
    ¬ ((foundAt "s" "A:B" "f" 0).key = (foundAt "s" "A" "B:f" 0).key
        ↔ (foundAt "s" "A:B" "f" 0).origin = (foundAt "s" "A" "B:f" 0).origin)
      ∧ ¬ ((foundAt "s" "A" "f" 0).key = (make "s:A:f:0" .high .medium "" "").key
        ↔ (foundAt "s" "A" "f" 0).origin = (make "s:A:f:0" .high .medium "" "").origin) := by
  constructor
  · intro h
    exact absurd (h.mp (by decide)) (by decide)
  · intro h
    exact absurd (h.mp (by decide)) (by decide)

end Finding

end PriceTaint
