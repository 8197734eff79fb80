/-
The search as a worklist.

`sourcesOf` looks for sources round by round. The same search can be made one variable
at a time, with a queue: the variable at the front is taken out, and those of its direct
sources that have not been reached go to the end of the queue and among the reached. The
start is queued without being reached, so it is found only if a cycle leads back to it.

Nothing bounds the turns of the worklist. That it ends all the same, and where, follows
from two facts. Taking out the variables of a frontier one after the other is one round,
with the same finds in the same order. And every variable that is reached is queued once,
so by the time the queue is empty there has been one turn for each of them and one for
the start.
-/
import Mathlib.Logic.Function.Iterate
import PriceTaint.Proofs.Influence.Closure

set_option autoImplicit false

namespace PriceTaint

namespace InfluenceGraph

/-- A search under way: the variables whose sources have to be looked at, and those that
have been reached. -/
structure Worklist where
  queue : List VariableId
  reached : List VariableId
deriving DecidableEq, Repr

namespace Worklist

/-- The search before its first turn. -/
def start (v : VariableId) : Worklist := ⟨[v], []⟩

/-- A source that has not been reached is reached now, and is queued. -/
def discover (w : Worklist) (source : VariableId) : Worklist :=
  if w.reached.contains source then w else ⟨w.queue ++ [source], w.reached ++ [source]⟩

end Worklist

/-- One turn of the search: the direct sources of the first variable in the queue are
discovered. There is nothing to do once the queue is empty. -/
def turn (g : InfluenceGraph) (scope : FunctionId) : Worklist → Worklist
  | ⟨[], reached⟩ => ⟨[], reached⟩
  | ⟨current :: queue, reached⟩ =>
    (g.direct scope current).foldl Worklist.discover ⟨queue, reached⟩

/-! ## Turns and rounds -/

/-- Discovering a row of sources adds the new ones among them, each once. -/
theorem Worklist.foldl_discover (sources queue reached : List VariableId) :
    sources.foldl discover ⟨queue, reached⟩
      = ⟨queue ++ (sources.filter fun u => !reached.contains u).eraseDups,
          reached ++ (sources.filter fun u => !reached.contains u).eraseDups⟩ := by
  induction sources generalizing queue reached with
  | nil => simp
  | cons u sources ih =>
    rw [List.foldl_cons, discover]
    by_cases hu : reached.contains u = true
    · rw [if_pos hu, ih, List.filter_cons_of_neg (by simpa using hu)]
    · -- from now on `u` counts as reached, which is how repetitions of it are passed over
      have hlater : (sources.filter fun x => !(reached ++ [u]).contains x)
          = (sources.filter fun x => !reached.contains x).filter fun x => !x == u := by
        rw [List.filter_filter]
        refine List.filter_congr fun x _ => ?_
        rw [List.contains_append, List.contains_cons, List.contains_nil, Bool.or_false,
          Bool.not_or, Bool.and_comm]
      rw [if_neg hu, ih, hlater, List.filter_cons_of_pos (by simpa using hu),
        List.eraseDups_cons, List.append_assoc, List.append_assoc, List.singleton_append]

section Turns

variable (g : InfluenceGraph) (scope : FunctionId)

/-- What a turn finds is what a round finds that has only the one variable in front. -/
theorem turn_cons (current : VariableId) (queue reached : List VariableId) :
    g.turn scope ⟨current :: queue, reached⟩
      = ⟨queue ++ g.fresh scope [current] reached,
          reached ++ g.fresh scope [current] reached⟩ := by
  rw [turn, Worklist.foldl_discover, fresh, List.flatMap_singleton]

theorem fresh_nil (seen : List VariableId) : g.fresh scope [] seen = [] := rfl

/-- A round can be divided: its first variable, and then the others, for which the finds
of the first have been seen. -/
theorem fresh_cons (current : VariableId) (frontier seen : List VariableId) :
    g.fresh scope (current :: frontier) seen
      = g.fresh scope [current] seen
        ++ g.fresh scope frontier (seen ++ g.fresh scope [current] seen) := by
  have hrest : ((frontier.flatMap (g.direct scope)).filter fun v =>
        !(seen ++ g.fresh scope [current] seen).contains v)
      = ((frontier.flatMap (g.direct scope)).filter fun v => !seen.contains v).removeAll
          ((g.direct scope current).filter fun v => !seen.contains v) := by
    rw [List.removeAll, List.filter_filter]
    refine List.filter_congr fun v _ => ?_
    rw [fresh, List.flatMap_singleton, List.contains_append, Bool.not_or, Bool.and_comm]
    simp only [List.elem_eq_contains, List.contains_eq_mem, List.mem_eraseDups]
  rw [fresh, List.flatMap_cons, List.filter_append, List.eraseDups_append, ← hrest, fresh,
    List.flatMap_singleton, fresh]

/-- As many turns as there are variables in the frontier make one round, and leave what
is queued behind the frontier in front of the finds. -/
theorem iterate_turn_frontier (frontier queue seen : List VariableId) :
    (g.turn scope)^[frontier.length] ⟨frontier ++ queue, seen⟩
      = ⟨queue ++ g.fresh scope frontier seen, seen ++ g.fresh scope frontier seen⟩ := by
  induction frontier generalizing queue seen with
  | nil => simp [fresh_nil]
  | cons current frontier ih =>
    rw [List.length_cons, Function.iterate_succ_apply, List.cons_append, turn_cons,
      List.append_assoc, ih, fresh_cons g scope current frontier seen, List.append_assoc,
      List.append_assoc]

/-- A round with nothing to find empties the queue. -/
theorem iterate_turn_of_fresh_eq_nil {frontier seen : List VariableId}
    (hnone : g.fresh scope frontier seen = []) :
    (g.turn scope)^[frontier.length] ⟨frontier, seen⟩ = ⟨[], seen⟩ := by
  have hround := g.iterate_turn_frontier scope frontier [] seen
  rwa [hnone, List.append_nil, List.append_nil, List.append_nil] at hround

variable {g scope} {start : VariableId}

/-- From every state of the search by rounds, the worklist comes to an end with the same
answer, after one turn for each variable in front and one for each that is found later. -/
theorem iterate_turn_search (hg : g.Consistent) (rounds : Nat) (frontier seen : List VariableId)
    (h : g.Explored scope start frontier seen)
    (hrounds : g.toList.length ≤ rounds + seen.length) :
    ∃ later, g.search scope rounds frontier seen = seen ++ later
      ∧ (g.turn scope)^[later.length + frontier.length] ⟨frontier, seen⟩ = ⟨[], seen ++ later⟩ := by
  induction rounds generalizing frontier seen with
  | zero =>
    -- the rounds have run out, but not before all sources had been seen
    have hnone : g.fresh scope frontier seen = [] := by
      refine List.eq_nil_iff_forall_not_mem.mpr fun u hu => ?_
      obtain ⟨⟨x, -, hx⟩, hnew⟩ := (mem_fresh_iff g scope frontier seen u).mp hu
      exact hnew (h.mem_seen_of_length hg (by omega) hx)
    refine ⟨[], by rw [search, List.append_nil], ?_⟩
    rw [List.length_nil, Nat.zero_add, List.append_nil]
    exact g.iterate_turn_of_fresh_eq_nil scope hnone
  | succ rounds ih =>
    rw [search]
    by_cases hnone : (g.fresh scope frontier seen).isEmpty
    · refine ⟨[], by rw [if_pos hnone, List.append_nil], ?_⟩
      rw [List.length_nil, Nat.zero_add, List.append_nil]
      exact g.iterate_turn_of_fresh_eq_nil scope (List.isEmpty_iff.mp hnone)
    · have hpos : 0 < (g.fresh scope frontier seen).length :=
        List.length_pos_iff.mpr fun hnil => hnone (List.isEmpty_iff.mpr hnil)
      have hleft : g.toList.length
          ≤ rounds + (seen ++ g.fresh scope frontier seen).length := by
        rw [List.length_append]
        omega
      -- one round, and the rest of the search from the finds of that round on
      obtain ⟨later, hsearch, hturns⟩ := ih _ _ (h.round hg) hleft
      have hround := g.iterate_turn_frontier scope frontier [] seen
      rw [List.append_nil, List.nil_append] at hround
      refine ⟨g.fresh scope frontier seen ++ later, ?_, ?_⟩
      · rw [if_neg hnone, hsearch, List.append_assoc]
      · rw [Function.iterate_add_apply, hround, List.length_append, Nat.add_comm, hturns,
          List.append_assoc]

/-- Nothing is found twice. -/
theorem nodup_search (hg : g.Consistent) (rounds : Nat) (frontier seen : List VariableId)
    (h : g.Explored scope start frontier seen) : (g.search scope rounds frontier seen).Nodup := by
  induction rounds generalizing frontier seen with
  | zero => exact h.nodup
  | succ rounds ih =>
    rw [search]
    by_cases hnone : (g.fresh scope frontier seen).isEmpty
    · rw [if_pos hnone]
      exact h.nodup
    · rw [if_neg hnone]
      exact ih _ _ (h.round hg)

/-- The worklist ends with the sources of its start, after one turn for the start and one
for each of them. -/
theorem Built.iterate_turn_start (hg : g.Built) (v : VariableId) :
    (g.turn scope)^[(g.sourcesOf v scope).length + 1] (Worklist.start v)
      = ⟨[], g.sourcesOf v scope⟩ := by
  obtain ⟨later, hsearch, hturns⟩ := iterate_turn_search hg.consistent g.edges.size [v] []
    (g.explored_start scope v) (by rw [toList, Array.length_toList]; omega)
  rw [List.nil_append] at hsearch hturns
  rw [sourcesOf, hsearch, Worklist.start]
  exact hturns

end Turns

/-! ## What the graph answers -/

/-- One of the edges says that `v` is computed directly from `u` in `scope`. -/
def StatedBy (edges : List Edge) (scope : FunctionId) (v u : VariableId) : Prop :=
  ⟨scope, v, u⟩ ∈ edges

/-- `v` is computed from `u` over one or more of the edges. -/
def Computed (edges : List Edge) (scope : FunctionId) : VariableId → VariableId → Prop :=
  Relation.TransGen (StatedBy edges scope)

theorem step_ofList (edges : List Edge) (scope : FunctionId) :
    (ofList edges).Step scope = StatedBy edges scope := by
  funext v u
  exact propext (mem_toList_ofList_iff edges ⟨scope, v, u⟩)

theorem mem_sourcesOf_ofList_iff (edges : List Edge) (v u : VariableId) (scope : FunctionId) :
    u ∈ (ofList edges).sourcesOf v scope ↔ Computed edges scope v u := by
  rw [(built_ofList edges).mem_sourcesOf_iff, step_ofList, Computed]

theorem influence_ofList_iff (edges : List Edge) (a b : VariableId) (scope : FunctionId) :
    (ofList edges).influence a b scope = true ↔ a = b ∨ Computed edges scope a b := by
  rw [influence, Bool.or_eq_true, beq_iff_eq, List.contains_iff_mem, mem_sourcesOf_ofList_iff]

/-- Only the set of edges counts. -/
theorem influence_ofList_congr {edges edges' : List Edge} (h : ∀ e, e ∈ edges' ↔ e ∈ edges) :
    (ofList edges').influence = (ofList edges).influence := by
  have hstated : ∀ scope, StatedBy edges' scope = StatedBy edges scope := by
    intro scope
    funext v u
    exact propext (h ⟨scope, v, u⟩)
  funext a b scope
  rw [Bool.eq_iff_iff, influence_ofList_iff, influence_ofList_iff, Computed, Computed, hstated]

/-- **The closure of the edges.** However the edges were inserted, the worklist from a
variable ends, and it ends with the sources of the variable, each once. These are what the
variable is computed from over one or more edges of the scope, itself only if it lies on a
cycle. A variable is influenced by itself and by its sources and by nothing else, so
influence is reflexive and transitive, and neither the order of the edges nor their
repetition matters. -/
theorem ofList_answers_closure (edges : List Edge) :
    (∀ scope v,
        ((ofList edges).turn scope)^[((ofList edges).sourcesOf v scope).length + 1] (.start v)
            = ⟨[], (ofList edges).sourcesOf v scope⟩
          ∧ ((ofList edges).sourcesOf v scope).Nodup
          ∧ ∀ u, u ∈ (ofList edges).sourcesOf v scope ↔ Computed edges scope v u)
      ∧ (∀ a b scope, (ofList edges).influence a b scope = true
          ↔ a = b ∨ Computed edges scope a b)
      ∧ (∀ a scope, (ofList edges).influence a a scope = true)
      ∧ (∀ a b c scope, (ofList edges).influence a b scope = true →
          (ofList edges).influence b c scope = true → (ofList edges).influence a c scope = true)
      ∧ ∀ edges' : List Edge, (∀ e, e ∈ edges' ↔ e ∈ edges) →
          (ofList edges').influence = (ofList edges).influence := by
  refine ⟨?_, influence_ofList_iff edges, ?_, ?_, ?_⟩
  · intro scope v
    have hbuilt := built_ofList edges
    refine ⟨hbuilt.iterate_turn_start v, ?_, ?_⟩
    · exact nodup_search hbuilt.consistent _ _ _ (explored_start _ scope v)
    · intro u
      exact mem_sourcesOf_ofList_iff edges v u scope
  · intro a scope
    exact (influence_ofList_iff edges a a scope).mpr (.inl rfl)
  · intro a b c scope hab hbc
    rw [influence_ofList_iff] at hab hbc ⊢
    rcases hab with rfl | hab
    · exact hbc
    · rcases hbc with rfl | hbc
      · exact .inr hab
      · exact .inr (hab.trans hbc)
  · intro edges' hsame
    exact influence_ofList_congr hsame

/-- Two variables that are computed from each other. -/
def cycle : List Edge := [⟨⟨0⟩, ⟨0⟩, ⟨1⟩⟩, ⟨⟨0⟩, ⟨1⟩, ⟨0⟩⟩]

/-- On a cycle the start is found in the end, after two turns for others; the edges may
come twice and the other way round. -/
theorem ofList_answers_closure_cycle :
    ((ofList cycle).turn ⟨0⟩)^[3] (.start ⟨0⟩) = ⟨[], [⟨1⟩, ⟨0⟩]⟩
      ∧ Computed cycle ⟨0⟩ ⟨0⟩ ⟨0⟩
      ∧ (ofList cycle).influence ⟨0⟩ ⟨1⟩ ⟨0⟩ = true
      ∧ (ofList cycle).influence ⟨1⟩ ⟨0⟩ ⟨0⟩ = true
      ∧ (ofList cycle).influence ⟨0⟩ ⟨0⟩ ⟨0⟩ = true
      ∧ (ofList (cycle.reverse ++ cycle)).influence = (ofList cycle).influence := by
  obtain ⟨hsources, -, -, htrans, hsame⟩ := ofList_answers_closure cycle
  obtain ⟨hturns, -, hmem⟩ := hsources ⟨0⟩ ⟨0⟩
  have hfound : (ofList cycle).sourcesOf ⟨0⟩ ⟨0⟩ = [⟨1⟩, ⟨0⟩] := by decide
  rw [hfound] at hturns hmem
  have hto : (ofList cycle).influence ⟨0⟩ ⟨1⟩ ⟨0⟩ = true := by decide
  have hback : (ofList cycle).influence ⟨1⟩ ⟨0⟩ ⟨0⟩ = true := by decide
  refine ⟨hturns, (hmem ⟨0⟩).mp (by decide), hto, hback, htrans _ _ _ _ hto hback, ?_⟩
  apply hsame
  intro e
  simp

end InfluenceGraph

end PriceTaint
