/-
In which order reads are discovered.

The walk through calls finds a call as often as there are ways to it. A way is given by
positions: those of the calls that are followed, each among the calls of the function in
which it stands, and last the position of the read itself. Written down in this manner,
the ways to the reads are all different, the walk takes each of them once, and it takes
them in lexicographic order, since it is through with everything behind one call before
it turns to the next.

The induction is on the depth. In its step the calls of one function are numbered, and
the number of a call is put in front of the ways that lead on from it.
-/
import Mathlib.Data.List.Sort
import PriceTaint.Proofs.Taint.Reads

set_option autoImplicit false

namespace PriceTaint

/-- The positions lead from the calls of a function to a call. All but the last are those
of calls that are followed, each into the function where the next position counts; the
last is that of the call itself. -/
inductive Program.LeadsTo (p : Program) (names : NameSet) :
    FunctionId → List Nat → CallId → Prop where
  | last {f : FunctionId} {i : Nat} {id : CallId} (h : (p.callsOf f)[i]? = some id) :
      LeadsTo p names f [i] id
  | follow {f g : FunctionId} {i : Nat} {through id : CallId} {path : List Nat}
      (h : (p.callsOf f)[i]? = some through) (hfollow : p.Follows names through g)
      (hrest : LeadsTo p names g path id) : LeadsTo p names f (i :: path) id

namespace Lens

section Walk

variable (lens : Lens) (p : Program)

/-- The ways to the reads of a function, with the reads: as the walk finds them, in
lexicographic order, and all of them. -/
structure Traces (depth : Nat) (f : FunctionId) (found : List (List Nat × CallId)) : Prop where
  reads : found.map Prod.snd = lens.callReads p depth f
  ordered : found.Pairwise fun a b => a.1 < b.1
  exact : ∀ path id, (path, id) ∈ found
    ↔ path.length ≤ depth ∧ p.LeadsTo lens.reads f path id ∧ lens.IsRead p id

/-- The same for the ways that lead on from one call of a function. -/
structure TracesOn (depth : Nat) (id : CallId) (found : List (List Nat × CallId)) : Prop where
  reads : found.map Prod.snd = lens.readsAt p (lens.callReads p depth) id
  ordered : found.Pairwise fun a b => a.1 < b.1
  exact : ∀ path last, (path, last) ∈ found
    ↔ (path = [] ∧ last = id ∧ lens.IsRead p id)
      ∨ ∃ g, p.Follows lens.reads id g ∧ path.length ≤ depth
        ∧ p.LeadsTo lens.reads g path last ∧ lens.IsRead p last

variable {lens p} {depth : Nat}

/-- From a read leads the empty way, and from a call that is followed lead the ways of the
function that it goes to. -/
theorem exists_tracesOn (h : ∀ g, ∃ found, lens.Traces p depth g found) (id : CallId) :
    ∃ found, lens.TracesOn p depth id found := by
  rcases lens.readsAt_trichotomy p id with ⟨hread, hnone, heq⟩ | ⟨g, hread, hfollows, heq⟩
    | ⟨hread, hnone, heq⟩
  · refine ⟨[([], id)], by rw [heq, List.map_singleton], List.pairwise_singleton _ _, ?_⟩
    intro path last
    simp [hread, hnone]
  · obtain ⟨found, htraces⟩ := h g
    refine ⟨found, by rw [heq, htraces.reads], htraces.ordered, ?_⟩
    intro path last
    rw [htraces.exact path last]
    simp [hread, hfollows]
  · refine ⟨[], by rw [heq, List.map_nil], .nil, ?_⟩
    intro path last
    simp [hread, hnone]

/-- The ways from all calls of a function: the position of a call, and a way on from it. -/
def spread (calls : List CallId) (below : CallId → List (List Nat × CallId)) :
    List (List Nat × CallId) :=
  calls.zipIdx.flatMap fun site => (below site.1).map fun way => (site.2 :: way.1, way.2)

theorem mem_spread_iff (calls : List CallId) (below : CallId → List (List Nat × CallId))
    (path : List Nat) (last : CallId) :
    (path, last) ∈ spread calls below
      ↔ ∃ i rest id, path = i :: rest ∧ calls[i]? = some id ∧ (rest, last) ∈ below id := by
  rw [spread, List.mem_flatMap]
  constructor
  · rintro ⟨⟨id, i⟩, hsite, hmem⟩
    obtain ⟨⟨rest, last'⟩, hway, heq⟩ := List.mem_map.mp hmem
    cases heq
    exact ⟨i, rest, id, rfl, List.mk_mem_zipIdx_iff_getElem?.mp hsite, hway⟩
  · rintro ⟨i, rest, id, rfl, hid, hway⟩
    exact ⟨(id, i), List.mk_mem_zipIdx_iff_getElem?.mpr hid,
      List.mem_map.mpr ⟨(rest, last), hway, rfl⟩⟩

/-- Positions in front decide, and only behind the same position do the ways on from it. -/
theorem pairwise_spread (calls : List CallId) {below : CallId → List (List Nat × CallId)}
    (h : ∀ id, (below id).Pairwise fun a b => a.1 < b.1) :
    (spread calls below).Pairwise fun a b => a.1 < b.1 := by
  have hpositions : calls.zipIdx.Pairwise fun a b => a.2 < b.2 := by
    rw [← List.pairwise_map, List.zipIdx_map_snd]
    exact List.pairwise_lt_range'
  rw [spread, List.pairwise_flatMap]
  constructor
  · intro site _
    rw [List.pairwise_map]
    exact (h site.1).imp fun hlt => List.cons_lt_cons_iff.mpr (.inr ⟨rfl, hlt⟩)
  · apply hpositions.imp
    intro site site' hlt a ha b hb
    obtain ⟨way, -, rfl⟩ := List.mem_map.mp ha
    obtain ⟨way', -, rfl⟩ := List.mem_map.mp hb
    exact List.cons_lt_cons_iff.mpr (.inl hlt)

theorem map_snd_spread (calls : List CallId) (below : CallId → List (List Nat × CallId)) :
    (spread calls below).map Prod.snd = calls.flatMap fun id => (below id).map Prod.snd := by
  have hfirst : calls = calls.zipIdx.map Prod.fst := (List.zipIdx_map_fst 0 calls).symm
  rw [spread, List.map_flatMap]
  conv_rhs => rw [hfirst, List.flatMap_map]
  simp only [List.map_map]
  rfl

/-- The ways of a function, from those that lead on from its calls. -/
theorem traces_spread {below : CallId → List (List Nat × CallId)} (f : FunctionId)
    (h : ∀ id, lens.TracesOn p depth id (below id)) :
    lens.Traces p (depth + 1) f (spread (p.callsOf f) below) where
  reads := by
    rw [map_snd_spread, callReads_succ]
    simp only [(h _).reads]
  ordered := pairwise_spread _ fun id => (h id).ordered
  exact path last := by
    rw [mem_spread_iff]
    constructor
    · rintro ⟨i, rest, id, rfl, hid, hway⟩
      rcases ((h id).exact rest last).mp hway with ⟨rfl, rfl, hread⟩
        | ⟨g, hfollow, hle, hlead, hread⟩
      · exact ⟨Nat.succ_le_succ (Nat.zero_le depth), .last hid, hread⟩
      · exact ⟨Nat.succ_le_succ hle, .follow hid hfollow hlead, hread⟩
    · rintro ⟨hle, hlead, hread⟩
      cases hlead with
      | @last _ i _ hid =>
        exact ⟨i, [], last, rfl, hid, ((h last).exact [] last).mpr (.inl ⟨rfl, rfl, hread⟩)⟩
      | @follow _ g i through _ rest hid hfollow hrest =>
        have hshort : rest.length ≤ depth := Nat.le_of_succ_le_succ hle
        exact ⟨i, rest, through, rfl, hid,
          ((h through).exact rest last).mpr (.inr ⟨g, hfollow, hshort, hrest, hread⟩)⟩

end Walk

/-- Every walk can be traced. -/
theorem exists_traces (lens : Lens) (p : Program) (depth : Nat) (f : FunctionId) :
    ∃ found, lens.Traces p depth f found := by
  induction depth generalizing f with
  | zero =>
    refine ⟨[], by rw [callReads_zero, List.map_nil], .nil, ?_⟩
    intro path id
    refine iff_of_false List.not_mem_nil ?_
    -- there is no way of no positions
    rintro ⟨hle, hlead, -⟩
    cases hlead with
    | last _ => exact absurd hle (Nat.not_succ_le_zero _)
    | follow _ _ _ => exact absurd hle (Nat.not_succ_le_zero _)
  | succ depth ih =>
    choose below hbelow using fun id => exists_tracesOn ih id
    exact ⟨_, traces_spread f hbelow⟩

/-- Two traces of one walk are the same, since both hold the same ways in order. -/
theorem Traces.unique {lens : Lens} {p : Program} {depth : Nat} {f : FunctionId}
    {found found' : List (List Nat × CallId)} (h : lens.Traces p depth f found)
    (h' : lens.Traces p depth f found') : found = found' := by
  have hirrefl : Std.Irrefl fun a b : List Nat × CallId => a.1 < b.1 :=
    ⟨fun a => List.lt_irrefl a.1⟩
  have hantisymm : Std.Antisymm fun a b : List Nat × CallId => a.1 < b.1 :=
    ⟨fun a b hab hba => absurd hba (List.lt_asymm hab)⟩
  refine h.ordered.eq_of_mem_iff h'.ordered ?_
  rintro ⟨path, id⟩
  rw [h.exact, h'.exact]

/-- **The order of discovery.** The reads of a function are the calls at the ends of the
ways of at most `depth` positions that lead from the function to a read, one for each way,
in the lexicographic order of the ways. -/
theorem callReads_in_order (lens : Lens) (p : Program) (depth : Nat) (f : FunctionId) :
    ∃! found : List (List Nat × CallId),
      found.map Prod.snd = lens.callReads p depth f
        ∧ (found.Pairwise fun a b => a.1 < b.1)
        ∧ ∀ path id, (path, id) ∈ found
          ↔ path.length ≤ depth ∧ p.LeadsTo lens.reads f path id ∧ lens.IsRead p id := by
  obtain ⟨found, htraces⟩ := lens.exists_traces p depth f
  refine ⟨found, ⟨htraces.reads, htraces.ordered, htraces.exact⟩, ?_⟩
  rintro other ⟨hreads, hordered, hexact⟩
  exact Traces.unique ⟨hreads, hordered, hexact⟩ htraces

/-- Two functions that call each other; the second one reads a price before it calls. -/
def pingPong : Program where
  functions := #[⟨"ping", "ping()", .function, ⟨0⟩, [⟨0⟩], []⟩,
    ⟨"pong", "pong()", .function, ⟨0⟩, [⟨1⟩, ⟨2⟩], []⟩]
  nodes := #[{ owner := ⟨0⟩, calls := [⟨0⟩] }, { owner := ⟨1⟩, calls := [⟨2⟩] },
    { owner := ⟨1⟩, calls := [⟨1⟩] }]
  calls := #[⟨.resolved (.function ⟨1⟩), [], "pong()"⟩, ⟨.resolved (.function ⟨0⟩), [], "ping()"⟩,
    ⟨.member "getReserves", [], "pair.getReserves()"⟩]

-- one read for each of the ways `[0, 0]`, `[0, 1, 0, 0]` and so on, the longest of ten positions
example : movedAmounts.callReads pingPong 10 ⟨0⟩ = List.replicate 5 ⟨2⟩ := by decide

end Lens

end PriceTaint
