/-
What the influence graph answers.

A graph is only ever made by inserting edges into the empty one. Along every such
history the table of direct sources stays what the edge list says it is, and the
breadth-first search over the table finds exactly the variables that can be
reached over one or more edges of the scope.

The argument about the search is one invariant with two halves. The half that
makes the answer sound: whatever has been seen is reachable. The half that makes
it complete: a variable that has been seen, or is the start, either stands in the
frontier or has had all its direct sources seen already. The rounds cannot run out
early, because every round sees a new variable and each of them is the source of
some edge: when as many have been seen as there are edges, there is nothing new.
-/
import Mathlib.Data.List.Perm.Subperm
import Mathlib.Logic.Relation
import PriceTaint.Influence.Graph
import PriceTaint.Proofs.Sequences

set_option autoImplicit false

namespace PriceTaint

/-! ## The order of the table -/

instance : Std.TransCmp Edge.compareKey :=
  inferInstanceAs (Std.TransCmp (compareLex (compareOn fun k : FunctionId × VariableId => k.1.index)
    (compareOn fun k => k.2.index)))

/-- Two keys are the same for the table only if they are equal. -/
theorem Edge.compareKey_eq_iff (a b : FunctionId × VariableId) :
    Edge.compareKey a b = .eq ↔ a = b := by
  obtain ⟨⟨i⟩, ⟨j⟩⟩ := a
  obtain ⟨⟨k⟩, ⟨l⟩⟩ := b
  simp only [Edge.compareKey, compareLex, compareOn, Ordering.then_eq_eq, Nat.compare_eq_eq,
    Prod.mk.injEq, Handle.mk.injEq]

namespace InfluenceGraph

/-! ## Histories -/

/-- The graphs that come about by insertions. -/
inductive Built : InfluenceGraph → Prop where
  | empty : Built .empty
  | insert {g : InfluenceGraph} (h : Built g) (e : Edge) : Built (g.insert e)

/-- The graph of a list of edges is built. -/
theorem built_ofList (edges : List Edge) : (ofList edges).Built := by
  have hfold : ∀ (es : List Edge) (g : InfluenceGraph), g.Built → (es.foldl insert g).Built := by
    intro es
    induction es with
    | nil => intro g hg; exact hg
    | cons e es ih => intro g hg; exact ih (g.insert e) (hg.insert e)
  exact hfold edges empty .empty

/-- The table says what the edges say: the direct sources of a variable are those
of its edges, in edge order. -/
def Consistent (g : InfluenceGraph) : Prop :=
  ∀ scope v, g.direct scope v
    = (g.toList.filter fun e => e.scope = scope ∧ e.target = v).map Edge.source

theorem direct_empty (scope : FunctionId) (v : VariableId) : empty.direct scope v = [] := by
  rw [direct, empty, Std.TreeMap.getD_emptyc]

/-- An edge that is there already changes nothing. -/
theorem insert_of_mem {g : InfluenceGraph} {e : Edge} (h : e.source ∈ g.direct e.scope e.target) :
    g.insert e = g := by
  rw [insert, if_pos h]

/-- A new edge goes to the end of the list. -/
theorem toList_insert {g : InfluenceGraph} {e : Edge}
    (h : e.source ∉ g.direct e.scope e.target) : (g.insert e).toList = g.toList ++ [e] := by
  rw [insert, if_neg h, toList, Array.toList_push, toList]

/-- A new edge adds its source to the sources of its target, and to no others. -/
theorem direct_insert {g : InfluenceGraph} {e : Edge}
    (h : e.source ∉ g.direct e.scope e.target) (scope : FunctionId) (v : VariableId) :
    (g.insert e).direct scope v
      = if e.scope = scope ∧ e.target = v then g.direct scope v ++ [e.source]
        else g.direct scope v := by
  rw [insert, if_neg h, direct, Std.TreeMap.getD_insert]
  simp only [Edge.compareKey_eq_iff, Prod.mk.injEq]
  by_cases hkey : e.scope = scope ∧ e.target = v
  · rw [if_pos hkey, if_pos hkey, hkey.1, hkey.2]
  · rw [if_neg hkey, if_neg hkey, direct]

theorem consistent_empty : empty.Consistent := by
  intro scope v
  rw [direct_empty]
  rfl

/-- One insertion keeps the table and the edges in step. -/
theorem Consistent.insert {g : InfluenceGraph} (hg : g.Consistent) (e : Edge) :
    (g.insert e).Consistent := by
  by_cases hmem : e.source ∈ g.direct e.scope e.target
  · rw [insert_of_mem hmem]
    exact hg
  · intro scope v
    rw [direct_insert hmem, toList_insert hmem, List.filter_append, List.map_append, ← hg scope v]
    by_cases hkey : e.scope = scope ∧ e.target = v
    · rw [if_pos hkey, List.filter_cons_of_pos (by simpa using hkey)]
      rfl
    · rw [if_neg hkey, List.filter_cons_of_neg (by simpa using hkey)]
      simp

theorem Built.consistent {g : InfluenceGraph} (hg : g.Built) : g.Consistent := by
  induction hg with
  | empty => exact consistent_empty
  | insert _ e ih => exact ih.insert e

/-- A built graph is the graph of its own edges: inserting them one by one takes
the same way again, less the insertions that changed nothing. -/
theorem Built.ofList_toList {g : InfluenceGraph} (hg : g.Built) : ofList g.toList = g := by
  induction hg with
  | empty => rfl
  | @insert g _ e ih =>
    by_cases hmem : e.source ∈ g.direct e.scope e.target
    · rw [insert_of_mem hmem]
      exact ih
    · rw [toList_insert hmem, ofList, List.foldl_append]
      rw [ofList] at ih
      rw [ih]
      rfl

/-! ## Reachability -/

/-- `v` is computed directly from `u` in `scope`. -/
def Step (g : InfluenceGraph) (scope : FunctionId) (v u : VariableId) : Prop :=
  ⟨scope, v, u⟩ ∈ g.toList

/-- `v` is `u`, or is computed from it over edges of `scope`. -/
def Reaches (g : InfluenceGraph) (scope : FunctionId) : VariableId → VariableId → Prop :=
  Relation.ReflTransGen (g.Step scope)

theorem Consistent.mem_direct_iff {g : InfluenceGraph} (hg : g.Consistent) (scope : FunctionId)
    (v u : VariableId) : u ∈ g.direct scope v ↔ g.Step scope v u := by
  rw [hg scope v, List.mem_map]
  constructor
  · rintro ⟨⟨s, t, w⟩, he, rfl⟩
    rw [List.mem_filter, decide_eq_true_iff] at he
    obtain ⟨hmem, rfl, rfl⟩ := he
    exact hmem
  · intro hstep
    exact ⟨⟨scope, v, u⟩, List.mem_filter.mpr ⟨hstep, decide_eq_true ⟨rfl, rfl⟩⟩, rfl⟩

/-- An insertion makes its own edge, and no other. -/
theorem Consistent.mem_toList_insert_iff {g : InfluenceGraph} (hg : g.Consistent) (d e : Edge) :
    e ∈ (g.insert d).toList ↔ e ∈ g.toList ∨ e = d := by
  by_cases hmem : d.source ∈ g.direct d.scope d.target
  · -- the edge was there before
    have hd : d ∈ g.toList := (hg.mem_direct_iff d.scope d.target d.source).mp hmem
    rw [insert_of_mem hmem]
    constructor
    · exact .inl
    · rintro (h | rfl)
      · exact h
      · exact hd
  · rw [toList_insert hmem, List.mem_append, List.mem_singleton]

/-- The graph of a list of edges has these edges, and no others. -/
theorem mem_toList_ofList_iff (edges : List Edge) (e : Edge) :
    e ∈ (ofList edges).toList ↔ e ∈ edges := by
  have hfold : ∀ (es : List Edge) (g : InfluenceGraph), g.Consistent →
      (e ∈ (es.foldl insert g).toList ↔ e ∈ g.toList ∨ e ∈ es) := by
    intro es
    induction es with
    | nil => intro g _; simp
    | cons d es ih =>
      intro g hg
      rw [List.foldl_cons, ih _ (hg.insert d), hg.mem_toList_insert_iff, List.mem_cons, or_assoc]
  rw [ofList, hfold edges empty consistent_empty]
  exact or_iff_right List.not_mem_nil

/-- More edges in a scope reach further in it. -/
theorem Reaches.mono {g g' : InfluenceGraph} {scope : FunctionId}
    (hstep : ∀ v u, g.Step scope v u → g'.Step scope v u) {v u : VariableId}
    (h : g.Reaches scope v u) : g'.Reaches scope v u :=
  Relation.ReflTransGen.mono hstep _ _ h

/-! ## The search -/

theorem mem_fresh_iff (g : InfluenceGraph) (scope : FunctionId) (frontier seen : List VariableId)
    (u : VariableId) :
    u ∈ g.fresh scope frontier seen ↔ (∃ v ∈ frontier, u ∈ g.direct scope v) ∧ u ∉ seen := by
  rw [fresh, List.mem_eraseDups, List.mem_filter, List.mem_flatMap]
  simp

/-- Soundness of the search: if the frontier is reached from `start`, and what has
been seen is reached over at least one edge, then so is the answer. -/
theorem search_sound {g : InfluenceGraph} (hg : g.Consistent) (scope : FunctionId)
    (start : VariableId) (rounds : Nat) (frontier seen : List VariableId)
    (hfrontier : ∀ x ∈ frontier, g.Reaches scope start x)
    (hseen : ∀ x ∈ seen, Relation.TransGen (g.Step scope) start x) :
    ∀ x ∈ g.search scope rounds frontier seen, Relation.TransGen (g.Step scope) start x := by
  induction rounds generalizing frontier seen with
  | zero => exact hseen
  | succ rounds ih =>
    rw [search]
    by_cases hempty : (g.fresh scope frontier seen).isEmpty
    · rw [if_pos hempty]
      exact hseen
    · rw [if_neg hempty]
      have hfound : ∀ x ∈ g.fresh scope frontier seen,
          Relation.TransGen (g.Step scope) start x := by
        intro x hx
        obtain ⟨⟨v, hv, hxv⟩, -⟩ := (mem_fresh_iff g scope frontier seen x).mp hx
        exact Relation.TransGen.tail' (hfrontier v hv) ((hg.mem_direct_iff scope v x).mp hxv)
      apply ih
      · intro x hx
        exact (hfound x hx).to_reflTransGen
      · intro x hx
        rcases List.mem_append.mp hx with h | h
        · exact hseen x h
        · exact hfound x h

/-- What has been seen contains the direct sources of the start and of everything
in it. -/
def ClosedFrom (g : InfluenceGraph) (scope : FunctionId) (start : VariableId)
    (seen : List VariableId) : Prop :=
  ∀ x, x = start ∨ x ∈ seen → ∀ y ∈ g.direct scope x, y ∈ seen

/-- What holds between the rounds of the search. -/
structure Explored (g : InfluenceGraph) (scope : FunctionId) (start : VariableId)
    (frontier seen : List VariableId) : Prop where
  /-- Only members of the frontier can have sources that have not been seen. -/
  done : ∀ x, x = start ∨ x ∈ seen → x ∈ frontier ∨ ∀ y ∈ g.direct scope x, y ∈ seen
  nodup : seen.Nodup
  sources : seen ⊆ g.toList.map Edge.source

theorem explored_start (g : InfluenceGraph) (scope : FunctionId) (start : VariableId) :
    g.Explored scope start [start] [] where
  done := by
    rintro x (rfl | h)
    · exact .inl (List.mem_singleton_self x)
    · exact absurd h List.not_mem_nil
  nodup := List.nodup_nil
  sources := List.nil_subset _

/-- Every direct source is the source of an edge, whoever has it. -/
theorem Consistent.mem_sources {g : InfluenceGraph} (hg : g.Consistent) {scope : FunctionId}
    {x y : VariableId} (hy : y ∈ g.direct scope x) : y ∈ g.toList.map Edge.source :=
  List.mem_map.mpr ⟨⟨scope, x, y⟩, (hg.mem_direct_iff scope x y).mp hy, rfl⟩

section Rounds

variable {g : InfluenceGraph} {scope : FunctionId} {start : VariableId}
  {frontier seen : List VariableId}

/-- One round keeps the invariant: its finds become the frontier. -/
theorem Explored.round (h : g.Explored scope start frontier seen) (hg : g.Consistent) :
    g.Explored scope start (g.fresh scope frontier seen)
      (seen ++ g.fresh scope frontier seen) where
  done := by
    intro x hx
    by_cases hnew : x ∈ g.fresh scope frontier seen
    · exact .inl hnew
    · right
      intro y hy
      have hold : x = start ∨ x ∈ seen :=
        hx.imp_right fun hmem => (List.mem_append.mp hmem).resolve_right hnew
      by_cases hseen : y ∈ seen
      · exact List.mem_append_left _ hseen
      -- a source of `x` that has not been seen: `x` is in the frontier, so it is found now
      · rcases h.done x hold with hfront | hall
        · exact List.mem_append_right _
            ((mem_fresh_iff g scope frontier seen y).mpr ⟨⟨x, hfront, hy⟩, hseen⟩)
        · exact absurd (hall y hy) hseen
  nodup := by
    refine List.nodup_append.mpr ⟨h.nodup, List.nodup_eraseDups _, ?_⟩
    rintro x hx _ hfresh rfl
    exact ((mem_fresh_iff g scope frontier seen x).mp hfresh).2 hx
  sources := by
    refine List.append_subset.mpr ⟨h.sources, fun x hx => ?_⟩
    obtain ⟨⟨v, -, hxv⟩, -⟩ := (mem_fresh_iff g scope frontier seen x).mp hx
    exact hg.mem_sources hxv

/-- A round that finds nothing ends the search with everything seen. -/
theorem Explored.closed_of_fresh_eq_nil (h : g.Explored scope start frontier seen)
    (hnone : g.fresh scope frontier seen = []) : g.ClosedFrom scope start seen := by
  intro x hx y hy
  rcases h.done x hx with hfront | hall
  · by_contra hnot
    have hfound := (mem_fresh_iff g scope frontier seen y).mpr ⟨⟨x, hfront, hy⟩, hnot⟩
    rw [hnone] at hfound
    exact List.not_mem_nil hfound
  · exact hall y hy

/-- When as many variables have been seen as there are edges, no source is left. -/
theorem Explored.mem_seen_of_length (h : g.Explored scope start frontier seen)
    (hg : g.Consistent) (hlength : g.toList.length ≤ seen.length) {x y : VariableId}
    (hy : y ∈ g.direct scope x) : y ∈ seen := by
  have hperm : seen.Perm (g.toList.map Edge.source) :=
    (List.subperm_of_subset h.nodup h.sources).perm_of_length_le (by rwa [List.length_map])
  exact hperm.symm.subset (hg.mem_sources hy)

/-- The answer is closed, whether the search ends by itself or its rounds run out:
what has been seen and the rounds left are together as many as there are edges. -/
theorem search_closed (hg : g.Consistent) (rounds : Nat) (frontier seen : List VariableId)
    (h : g.Explored scope start frontier seen)
    (hrounds : g.toList.length ≤ rounds + seen.length) :
    g.ClosedFrom scope start (g.search scope rounds frontier seen) := by
  induction rounds generalizing frontier seen with
  | zero =>
    intro x _ y hy
    exact h.mem_seen_of_length hg (by omega) hy
  | succ rounds ih =>
    rw [search]
    by_cases hnone : (g.fresh scope frontier seen).isEmpty
    · rw [if_pos hnone]
      exact h.closed_of_fresh_eq_nil (List.isEmpty_iff.mp hnone)
    · rw [if_neg hnone]
      have hpos : 0 < (g.fresh scope frontier seen).length :=
        List.length_pos_iff.mpr fun hnil => hnone (List.isEmpty_iff.mpr hnil)
      refine ih _ _ (h.round hg) ?_
      rw [List.length_append]
      omega

end Rounds

/-- The sources of a variable are what it reaches over one or more edges. -/
theorem Built.mem_sourcesOf_iff {g : InfluenceGraph} (hg : g.Built) (v u : VariableId)
    (scope : FunctionId) :
    u ∈ g.sourcesOf v scope ↔ Relation.TransGen (g.Step scope) v u := by
  have hclosed := search_closed hg.consistent g.edges.size [v] [] (g.explored_start scope v)
    (by rw [toList, Array.length_toList]; omega)
  rw [sourcesOf]
  constructor
  · refine search_sound hg.consistent scope v g.edges.size [v] [] ?_ ?_ u
    · intro x hx
      rw [List.mem_singleton.mp hx]
      exact Relation.ReflTransGen.refl
    · intro x hx
      exact absurd hx List.not_mem_nil
  · intro hreach
    induction hreach with
    | single hstep =>
      exact hclosed v (Or.inl rfl) _ ((hg.consistent.mem_direct_iff scope v _).mpr hstep)
    | tail _ hstep ih =>
      exact hclosed _ (Or.inr ih) _ ((hg.consistent.mem_direct_iff scope _ _).mpr hstep)

/-- A variable is influenced by what it reaches over zero or more edges. -/
theorem Built.influence_iff {g : InfluenceGraph} (hg : g.Built) (candidate source : VariableId)
    (scope : FunctionId) :
    g.influence candidate source scope = true ↔ g.Reaches scope candidate source := by
  rw [influence, Bool.or_eq_true, beq_iff_eq, List.contains_iff_mem, hg.mem_sourcesOf_iff, Reaches,
    Relation.reflTransGen_iff_eq_or_transGen]
  constructor
  · rintro (rfl | h)
    · exact Or.inl rfl
    · exact Or.inr h
  · rintro (rfl | h)
    · exact Or.inl rfl
    · exact Or.inr h

end InfluenceGraph

end PriceTaint
