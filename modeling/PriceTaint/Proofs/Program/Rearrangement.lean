/-
Programs with their arenas rearranged.

A rearrangement gives every part a new place among the parts of its kind, and every
handle that is stored anywhere follows the part it points to. Lists of handles keep
their order, and so do the edges of an influence graph: only the numbers change. Handles
that point outside their arena are left alone, which makes the renaming injective on all
handles and not only on those in use.

Two facts are proved. The program is embedded in its rearrangement, so that everything
shown about embeddings applies; and a variable of the renamed graph reaches what it
reached before, under the new names. For the second the edges of the renamed graph have
to be known exactly, and that is where injectivity is needed: two edges that fell
together under their new names would be kept once only.
-/
import Mathlib.Logic.Equiv.Defs
import PriceTaint.Proofs.Influence.Closure
import PriceTaint.Proofs.Program.Embedding

set_option autoImplicit false

namespace PriceTaint

/-! ## Graphs under new names -/

/-- An edge between the parts under their new names. -/
def Edge.rename (ρ : Renaming) (e : Edge) : Edge :=
  ⟨ρ.on e.scope, ρ.on e.target, ρ.on e.source⟩

theorem Edge.rename_injective (ρ : Renaming) {d e : Edge} (h : d.rename ρ = e.rename ρ) :
    d = e := by
  obtain ⟨hscope, htarget, hsource⟩ := Edge.mk.inj h
  cases d
  cases e
  rw [Edge.mk.injEq]
  exact ⟨ρ.injective hscope, ρ.injective htarget, ρ.injective hsource⟩

namespace InfluenceGraph

/-- The graph of the renamed edges, in the same order. -/
def rename (ρ : Renaming) (g : InfluenceGraph) : InfluenceGraph :=
  ofList (g.toList.map (Edge.rename ρ))

section Renamed

variable (ρ : Renaming) {g : InfluenceGraph}

/-- Renaming loses no edge and moves none. -/
theorem Built.toList_rename (hg : g.Built) :
    (g.rename ρ).toList = g.toList.map (Edge.rename ρ) := by
  induction hg with
  | empty => rfl
  | @insert g hg e ih =>
    by_cases hmem : e.source ∈ g.direct e.scope e.target
    · rw [insert_of_mem hmem]
      exact ih
    · have hfold : (g.insert e).rename ρ = (g.rename ρ).insert (e.rename ρ) := by
        rw [rename, rename, toList_insert hmem, ofList, ofList, List.map_append, List.foldl_append]
        rfl
      have hnew : (e.rename ρ).source
          ∉ (g.rename ρ).direct (e.rename ρ).scope (e.rename ρ).target := by
        intro hold
        -- an edge of this name in the renamed graph can only come from `e` itself
        have hstep : e.rename ρ ∈ (g.rename ρ).toList :=
          ((built_ofList _).consistent.mem_direct_iff _ _ _).mp hold
        rw [ih] at hstep
        obtain ⟨d, hd, hde⟩ := List.mem_map.mp hstep
        obtain rfl := Edge.rename_injective ρ hde
        exact hmem ((hg.consistent.mem_direct_iff _ _ _).mpr hd)
      rw [hfold, InfluenceGraph.toList_insert hnew, toList_insert hmem, ih, List.map_append]
      rfl

theorem Built.step_rename_iff (hg : g.Built) (scope : FunctionId) (v x : VariableId) :
    (g.rename ρ).Step (ρ.on scope) (ρ.on v) x ↔ ∃ u, g.Step scope v u ∧ ρ.on u = x := by
  rw [Step, hg.toList_rename ρ, List.mem_map]
  constructor
  · rintro ⟨⟨s, t, u⟩, he, heq⟩
    obtain ⟨hscope, htarget, hsource⟩ := Edge.mk.inj heq
    obtain rfl := ρ.injective hscope
    obtain rfl := ρ.injective htarget
    exact ⟨u, he, hsource⟩
  · rintro ⟨u, hstep, rfl⟩
    exact ⟨⟨scope, v, u⟩, hstep, rfl⟩

/-- From a renamed variable only renamed variables are reached, and those it reached. -/
theorem Built.exists_of_reaches_rename (hg : g.Built) {scope : FunctionId} {v x : VariableId}
    (h : (g.rename ρ).Reaches (ρ.on scope) (ρ.on v) x) :
    ∃ u, g.Reaches scope v u ∧ ρ.on u = x := by
  induction h with
  | refl => exact ⟨v, .refl, rfl⟩
  | tail _ hstep ih =>
    obtain ⟨w, hreach, rfl⟩ := ih
    obtain ⟨u, hu, rfl⟩ := (hg.step_rename_iff ρ scope w _).mp hstep
    exact ⟨u, hreach.tail hu, rfl⟩

theorem Built.reaches_rename_iff (hg : g.Built) (scope : FunctionId) (v u : VariableId) :
    (g.rename ρ).Reaches (ρ.on scope) (ρ.on v) (ρ.on u) ↔ g.Reaches scope v u := by
  constructor
  · intro h
    obtain ⟨u', hreach, heq⟩ := hg.exists_of_reaches_rename ρ h
    obtain rfl := ρ.injective heq
    exact hreach
  · intro h
    exact Relation.ReflTransGen.lift ρ.on
      (fun a b hstep => (hg.step_rename_iff ρ scope a _).mpr ⟨b, hstep, rfl⟩) _ _ h

/-- Influence depends on names through identity only. -/
theorem Built.influence_rename (hg : g.Built) (candidate source : VariableId)
    (scope : FunctionId) :
    (g.rename ρ).influence (ρ.on candidate) (ρ.on source) (ρ.on scope)
      = g.influence candidate source scope := by
  have hrenamed : (g.rename ρ).Built := built_ofList _
  rw [Bool.eq_iff_iff, hrenamed.influence_iff, hg.influence_iff]
  exact hg.reaches_rename_iff ρ scope candidate source

end Renamed

end InfluenceGraph

/-! ## Rearrangements -/

/-- A new place for every part of a program, kind by kind. -/
structure Rearrangement (p : Program) where
  move : (kind : Kind) → Equiv.Perm (Fin (p.count kind))

namespace Rearrangement

variable {p : Program}

/-- Where a handle points once the parts have moved. -/
def place (σ : Rearrangement p) {kind : Kind} (h : Handle kind) : Handle kind :=
  if hin : h.index < p.count kind then ⟨σ.move kind ⟨h.index, hin⟩⟩ else h

theorem place_of_lt (σ : Rearrangement p) {kind : Kind} {h : Handle kind}
    (hin : h.index < p.count kind) : σ.place h = ⟨σ.move kind ⟨h.index, hin⟩⟩ :=
  dif_pos hin

theorem place_of_le (σ : Rearrangement p) {kind : Kind} {h : Handle kind}
    (hout : p.count kind ≤ h.index) : σ.place h = h :=
  dif_neg (Nat.not_lt.mpr hout)

/-- A handle stays on its side of the end of the arena. -/
theorem place_lt_iff (σ : Rearrangement p) {kind : Kind} (h : Handle kind) :
    (σ.place h).index < p.count kind ↔ h.index < p.count kind := by
  by_cases hin : h.index < p.count kind
  · rw [σ.place_of_lt hin]
    exact iff_of_true (Fin.isLt _) hin
  · rw [σ.place_of_le (Nat.not_lt.mp hin)]

theorem place_injective (σ : Rearrangement p) {kind : Kind} {a b : Handle kind}
    (h : σ.place a = σ.place b) : a = b := by
  -- a handle inside the arena never falls together with one outside
  have hside : a.index < p.count kind ↔ b.index < p.count kind := by
    rw [← σ.place_lt_iff a, ← σ.place_lt_iff b, h]
  by_cases ha : a.index < p.count kind
  · rw [σ.place_of_lt ha, σ.place_of_lt (hside.mp ha)] at h
    have hindex := (σ.move kind).injective (Fin.ext (Handle.mk.inj h))
    cases a
    cases b
    exact congrArg Handle.mk (Fin.mk.inj hindex)
  · have hb := mt hside.mpr ha
    rwa [σ.place_of_le (Nat.not_lt.mp ha), σ.place_of_le (Nat.not_lt.mp hb)] at h

/-- The new name of every handle. -/
def names (σ : Rearrangement p) : Renaming where
  on := σ.place
  injective := σ.place_injective

/-- The parts of one kind at their new places, each changed by `follow`. -/
def arena (σ : Rearrangement p) (kind : Kind) {α : Type} (xs : Array α)
    (hsize : p.count kind = xs.size) (follow : α → α) : Array α :=
  Array.ofFn fun i => follow xs[((σ.move kind).symm i).cast hsize]

theorem size_arena (σ : Rearrangement p) {kind : Kind} {α : Type} {xs : Array α}
    (hsize : p.count kind = xs.size) (follow : α → α) :
    (σ.arena kind xs hsize follow).size = p.count kind :=
  Array.size_ofFn

/-- A part is found at its new place. -/
theorem getElem?_arena (σ : Rearrangement p) {kind : Kind} {α : Type} {xs : Array α}
    (hsize : p.count kind = xs.size) (follow : α → α) {h : Handle kind} {x : α}
    (hx : xs[h.index]? = some x) :
    (σ.arena kind xs hsize follow)[(σ.place h).index]? = some (follow x) := by
  obtain ⟨hlt, hget⟩ := Array.getElem?_eq_some_iff.mp hx
  -- only inside the arena has a place a part to be filled with
  have hin : h.index < p.count kind := hsize ▸ hlt
  rw [σ.place_of_lt hin, arena, Array.getElem?_ofFn, dif_pos (Fin.isLt _)]
  simp only [Fin.eta, Equiv.symm_apply_apply, Fin.cast_mk, Fin.getElem_fin, hget]

end Rearrangement

namespace Program

/-- The program with its parts at their new places and every handle renamed. -/
def rearrange (p : Program) (σ : Rearrangement p) : Program where
  contracts := σ.arena .contract p.contracts rfl (Contract.rename σ.names)
  functions := σ.arena .function p.functions rfl (Function.rename σ.names)
  nodes := σ.arena .node p.nodes rfl (Node.rename σ.names)
  calls := σ.arena .call p.calls rfl (Call.rename σ.names)
  vars := σ.arena .variable p.vars rfl id

section Rearranged

variable {p : Program} (σ : Rearrangement p)

/-- A look-up at the new place of a part finds the part, with its handles renamed. -/
theorem embeds_rearrange : p.Embeds σ.names (p.rearrange σ) where
  contracts hc := σ.getElem?_arena rfl _ hc
  functions hf := σ.getElem?_arena rfl _ hf
  nodes hn := σ.getElem?_arena rfl _ hn
  calls hc := σ.getElem?_arena rfl _ hc
  vars hv := σ.getElem?_arena rfl _ hv

/-- A handle that finds no contract finds none afterwards. -/
theorem contractAt?_rearrange_eq_none {id : ContractId} (h : p.contractAt? id = none) :
    (p.rearrange σ).contractAt? (σ.names.on id) = none := by
  have hout : p.count .contract ≤ id.index := Array.getElem?_eq_none_iff.mp h
  have hsize : (p.rearrange σ).contracts.size = p.count .contract := σ.size_arena _ _
  refine Array.getElem?_eq_none_iff.mpr ?_
  rw [hsize]
  exact Nat.not_lt.mp (mt (σ.place_lt_iff id).mp (Nat.not_lt.mpr hout))

end Rearranged

end Program

/-! ## Documents -/

namespace Document

/-- The program of a valid document is valid. -/
theorem program_validate {d : Document} (h : d.validate = .ok ()) :
    d.program.validate = .ok () := by
  have hfaults := (d.validate_eq_ok_iff_faults).mp h
  rw [faults, List.append_eq_nil_iff] at hfaults
  rw [Program.validate, hfaults.1]
  rfl

/-- The document with the parts of its program rearranged, and its edges with them. -/
def rearrange (d : Document) (σ : Rearrangement d.program) : Document :=
  ⟨d.program.rearrange σ, d.influence.rename σ.names⟩

end Document

end PriceTaint
