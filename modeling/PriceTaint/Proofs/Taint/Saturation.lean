/-
How deep the walk has to go.

The walk through calls is cut by its depth alone, and where functions call each other
there are chains of calls of any length. Still a depth of as many calls as there are
functions loses no read: a chain that comes back to a function can be cut short between
the two visits, and a chain that never comes back enters each function at most once.

Chains are compared with reachability. A route is the list of functions that a chain
enters; the routes from one function to another are those of the relation `Enters`, so
that routes without repetitions exist wherever there are routes at all.
-/
import Mathlib.Data.List.Chain
import Mathlib.Data.List.Perm.Subperm
import PriceTaint.Proofs.Taint.Discovery

set_option autoImplicit false

namespace PriceTaint

/-! ## Routes without repetitions -/

/-- What can be reached can be reached without coming back to any place. -/
theorem exists_nodup_route {α : Type} {r : α → α → Prop} {a b : α}
    (h : Relation.ReflTransGen r a b) :
    ∃ route, (a :: route).IsChain r ∧ (a :: route).getLast (List.cons_ne_nil a route) = b
      ∧ (a :: route).Nodup := by
  induction h using Relation.ReflTransGen.head_induction_on with
  | refl => exact ⟨[], List.isChain_singleton b, rfl, List.nodup_singleton b⟩
  | @head a c hstep _ ih =>
    obtain ⟨route, hchain, hlast, hnodup⟩ := ih
    by_cases hback : a ∈ c :: route
    · -- the route comes back to `a`: what lies before that visit is left out
      obtain ⟨before, after, hsplit⟩ := List.append_of_mem hback
      rw [hsplit] at hchain hnodup
      refine ⟨after, hchain.right_of_append, ?_, hnodup.of_append_right⟩
      rw [← hlast]
      simp only [hsplit, List.getLast_append_of_ne_nil _ (List.cons_ne_nil a after)]
    · exact ⟨c :: route, List.isChain_cons_cons.mpr ⟨hstep, hchain⟩,
        by rw [List.getLast_cons_cons, hlast], List.nodup_cons.mpr ⟨hback, hnodup⟩⟩

namespace Program

variable {p : Program} {names : NameSet}

/-- A call of `f` is followed into `g`. -/
def Enters (p : Program) (names : NameSet) (f g : FunctionId) : Prop :=
  ∃ id ∈ p.callsOf f, p.Follows names id g

/-- Whatever has a call is a function of the program. -/
theorem lt_size_of_mem_callsOf {f : FunctionId} {id : CallId} (h : id ∈ p.callsOf f) :
    f.index < p.functions.size := by
  obtain ⟨m, n, hbody, -⟩ := (p.mem_callsOf_iff f id).mp h
  obtain ⟨function, hfunction, -, -⟩ := (p.mem_bodyOf_iff f m n).mp hbody
  exact (Array.getElem?_eq_some_iff.mp hfunction).1

/-- All functions on a route to a call are functions of the program. -/
theorem lt_size_of_mem_route {id : CallId} {f : FunctionId} {route : List FunctionId}
    (hroute : (f :: route).IsChain (p.Enters names))
    (hlast : id ∈ p.callsOf ((f :: route).getLast (List.cons_ne_nil f route))) :
    ∀ g ∈ f :: route, g.index < p.functions.size := by
  induction route generalizing f with
  | nil =>
    intro g hg
    rw [List.mem_singleton.mp hg]
    exact lt_size_of_mem_callsOf hlast
  | cons next route ih =>
    -- all but the last make the call that leads on, and the last makes `id`
    obtain ⟨⟨through, hthrough, -⟩, hrest⟩ := List.isChain_cons_cons.mp hroute
    rw [List.getLast_cons_cons] at hlast
    intro g hg
    rcases List.mem_cons.mp hg with rfl | hg
    · exact lt_size_of_mem_callsOf hthrough
    · exact ih hrest hlast g hg

/-- Functions of the program that are all different are not more than it has. -/
theorem length_le_size_of_nodup {fs : List FunctionId} (hnodup : fs.Nodup)
    (h : ∀ g ∈ fs, g.index < p.functions.size) : fs.length ≤ p.functions.size := by
  have hinjective : Function.Injective (Handle.index : FunctionId → Nat) := by
    rintro ⟨i⟩ ⟨j⟩ rfl
    rfl
  have hsubset : fs.map Handle.index ⊆ List.range p.functions.size := by
    intro i hi
    obtain ⟨g, hg, rfl⟩ := List.mem_map.mp hi
    exact List.mem_range.mpr (h g hg)
  have hle := (List.subperm_of_subset (hnodup.map hinjective) hsubset).length_le
  rwa [List.length_map, List.length_range] at hle

/-! ## Chains and routes -/

/-- A chain ends at a call of a function that can be reached. -/
theorem CallChain.exists_reachable {calls : List CallId} {k : Nat} {id : CallId}
    (h : p.CallChain names calls k id) (f : FunctionId) (hcalls : calls = p.callsOf f) :
    ∃ g, Relation.ReflTransGen (p.Enters names) f g ∧ id ∈ p.callsOf g := by
  induction h generalizing f with
  | last hid => exact ⟨f, .refl, hcalls ▸ hid⟩
  | @follow calls through last g k hthrough hfollow _ ih =>
    obtain ⟨g', hreach, hid⟩ := ih g rfl
    exact ⟨g', .head ⟨through, hcalls ▸ hthrough, hfollow⟩ hreach, hid⟩

/-- Along a route leads a chain that follows one call for each function entered. -/
theorem callChain_of_route {f : FunctionId} {route : List FunctionId} {id : CallId}
    (hroute : (f :: route).IsChain (p.Enters names))
    (hlast : id ∈ p.callsOf ((f :: route).getLast (List.cons_ne_nil f route))) :
    p.CallChain names (p.callsOf f) route.length id := by
  induction route generalizing f with
  | nil => exact .last hlast
  | cons next route ih =>
    obtain ⟨⟨through, hthrough, hfollow⟩, hrest⟩ := List.isChain_cons_cons.mp hroute
    rw [List.getLast_cons_cons] at hlast
    exact .follow hthrough hfollow (ih hrest hlast)

/-- The calls that any chain leads to are those that a chain leads to which follows fewer
calls than there are functions. -/
theorem exists_callChain_lt_size_iff (f : FunctionId) (id : CallId) :
    (∃ k, k < p.functions.size ∧ p.CallChain names (p.callsOf f) k id)
      ↔ ∃ g, Relation.ReflTransGen (p.Enters names) f g ∧ id ∈ p.callsOf g := by
  constructor
  · rintro ⟨k, -, hchain⟩
    exact hchain.exists_reachable f rfl
  · rintro ⟨g, hreach, hid⟩
    obtain ⟨route, hroute, rfl, hnodup⟩ := exists_nodup_route hreach
    have hlength : (f :: route).length ≤ p.functions.size :=
      length_le_size_of_nodup hnodup (lt_size_of_mem_route hroute hid)
    exact ⟨route.length, hlength, callChain_of_route hroute hid⟩

end Program

namespace Lens

/-- The reads of a function are those at the ends of chains shorter than the depth. -/
theorem mem_callReads_iff (lens : Lens) (p : Program) (depth : Nat) (f : FunctionId)
    (id : CallId) :
    id ∈ lens.callReads p depth f
      ↔ ∃ k, k < depth ∧ p.CallChain lens.reads (p.callsOf f) k id ∧ lens.IsRead p id := by
  cases depth with
  | zero => simp [callReads_zero]
  | succ depth =>
    rw [callReads_succ, mem_flatMap_readsAt_iff]
    simp only [Nat.lt_succ_iff]

/-- From a depth of as many calls as there are functions on, the reads are those of all
functions that can be reached. -/
theorem mem_callReads_iff_reachable (lens : Lens) (p : Program) {depth : Nat}
    (h : p.functions.size ≤ depth) (f : FunctionId) (id : CallId) :
    id ∈ lens.callReads p depth f
      ↔ ∃ g, Relation.ReflTransGen (p.Enters lens.reads) f g ∧ id ∈ p.callsOf g
        ∧ lens.IsRead p id := by
  rw [mem_callReads_iff]
  constructor
  · rintro ⟨k, -, hchain, hread⟩
    obtain ⟨g, hreach, hid⟩ := hchain.exists_reachable f rfl
    exact ⟨g, hreach, hid, hread⟩
  · rintro ⟨g, hreach, hid, hread⟩
    obtain ⟨k, hk, hchain⟩ := (Program.exists_callChain_lt_size_iff f id).mpr ⟨g, hreach, hid⟩
    exact ⟨k, Nat.lt_of_lt_of_le hk h, hchain, hread⟩

/-- **Saturation.** A walk to a depth of at least the number of functions finds exactly the
reads of the functions that can be reached over calls that are followed, however many; so
all such depths find the same. -/
theorem callReads_saturated (lens : Lens) (p : Program) (f : FunctionId) (depth : Nat)
    (h : p.functions.size ≤ depth) :
    (∀ id, id ∈ lens.callReads p depth f
      ↔ ∃ g, Relation.ReflTransGen (p.Enters lens.reads) f g ∧ id ∈ p.callsOf g
        ∧ lens.IsRead p id)
      ∧ ∀ depth', p.functions.size ≤ depth' →
        ∀ id, id ∈ lens.callReads p depth' f ↔ id ∈ lens.callReads p depth f := by
  refine ⟨mem_callReads_iff_reachable lens p h f, ?_⟩
  intro depth' h' id
  rw [mem_callReads_iff_reachable lens p h, mem_callReads_iff_reachable lens p h']

/-- Two functions that call each other: from depth two on the walk finds the one read and
nothing else, though there are more and more ways to it. -/
theorem callReads_saturated_pingPong :
    pingPong.functions.size ≤ 2
      ∧ (∃ g, Relation.ReflTransGen (pingPong.Enters movedAmounts.reads) ⟨0⟩ g
        ∧ ⟨2⟩ ∈ pingPong.callsOf g ∧ movedAmounts.IsRead pingPong ⟨2⟩)
      ∧ ∀ depth, 2 ≤ depth → ∀ id, id ∈ movedAmounts.callReads pingPong depth ⟨0⟩ ↔ id = ⟨2⟩ := by
  have hsize : pingPong.functions.size ≤ 2 := by decide
  have htwo : movedAmounts.callReads pingPong 2 ⟨0⟩ = [⟨2⟩] := by decide
  obtain ⟨hreached, hsame⟩ := callReads_saturated movedAmounts pingPong ⟨0⟩ 2 hsize
  refine ⟨hsize, (hreached ⟨2⟩).mp (by rw [htwo]; exact List.mem_singleton_self _), ?_⟩
  intro depth hdepth id
  rw [hsame depth hdepth id, htwo, List.mem_singleton]

-- one call less, and the walk stops in front of the read
example : movedAmounts.callReads pingPong 1 ⟨0⟩ = [] := by decide

end Lens

end PriceTaint
