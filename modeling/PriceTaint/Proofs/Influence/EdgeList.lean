/-
The table against the edge list.

A graph says everything twice: in its list of edges, which is stored, counted and checked,
and in its table of direct sources, which answers questions. One insertion changes both or
neither, depending on what the table says, so a table that had drifted away from the list
would let an edge in a second time or keep a new one out.

That it never does is carried along the history of insertions. From it follows what the way
through a graph does to a list of edges: it keeps the first occurrence of each edge and drops
the others. A graph has no repetitions to drop, so it comes back from its list unchanged, the
table included.
-/
import Mathlib.Data.List.Induction
import Mathlib.Data.List.Nodup
import PriceTaint.Proofs.Influence.Closure

set_option autoImplicit false

namespace PriceTaint

namespace InfluenceGraph

/-! ## One insertion -/

/-- The table knows an edge exactly if the list has it. -/
theorem Consistent.source_mem_direct_iff {g : InfluenceGraph} (hg : g.Consistent) (e : Edge) :
    e.source ∈ g.direct e.scope e.target ↔ e ∈ g.toList :=
  hg.mem_direct_iff e.scope e.target e.source

/-- An insertion adds its edge at the end, unless the list has it. -/
theorem Consistent.toList_insert_eq {g : InfluenceGraph} (hg : g.Consistent) (e : Edge) :
    (g.insert e).toList = g.toList ++ if g.toList.contains e then [] else [e] := by
  by_cases hmem : g.toList.contains e = true
  · have hknown := (hg.source_mem_direct_iff e).mpr (List.contains_iff_mem.mp hmem)
    rw [insert_of_mem hknown, if_pos hmem, List.append_nil]
  · have hnew := mt (hg.source_mem_direct_iff e).mp (mt List.contains_iff_mem.mpr hmem)
    rw [toList_insert hnew, if_neg hmem]

/-- An insertion does not repeat an edge. -/
theorem Consistent.nodup_toList_insert {g : InfluenceGraph} (hg : g.Consistent)
    (hnodup : g.toList.Nodup) (e : Edge) : (g.insert e).toList.Nodup := by
  rw [hg.toList_insert_eq e]
  by_cases hmem : g.toList.contains e = true
  · rwa [if_pos hmem, List.append_nil]
  · rw [if_neg hmem, ← List.concat_eq_append]
    exact hnodup.concat (mt List.contains_iff_mem.mpr hmem)

/-! ## All insertions -/

theorem Built.nodup_toList {g : InfluenceGraph} (hg : g.Built) : g.toList.Nodup := by
  induction hg with
  | empty => exact List.nodup_nil
  | insert hbefore e ih => exact hbefore.consistent.nodup_toList_insert ih e

/-- One more edge at the end of a list is in its graph too, at the end, unless it occurred
before. -/
theorem toList_ofList_concat (edges : List Edge) (e : Edge) :
    (ofList (edges ++ [e])).toList
      = (ofList edges).toList ++ if edges.contains e then [] else [e] := by
  have hlast : ofList (edges ++ [e]) = (ofList edges).insert e := by
    rw [ofList, List.foldl_append]
    rfl
  have hoccurs : (ofList edges).toList.contains e = edges.contains e := by
    rw [Bool.eq_iff_iff, List.contains_iff_mem, List.contains_iff_mem, mem_toList_ofList_iff]
  rw [hlast, (built_ofList edges).consistent.toList_insert_eq e, hoccurs]

/-- Through a graph, a list of edges loses its repetitions. -/
theorem toList_ofList (edges : List Edge) : (ofList edges).toList = edges.eraseDups := by
  induction edges using List.reverseRecOn with
  | nil => rfl
  | append_singleton edges e ih =>
    rw [toList_ofList_concat, ih, List.eraseDups_concat]

/-- A list without repetitions goes through a graph as it is. -/
theorem toList_ofList_of_nodup {edges : List Edge} (h : edges.Nodup) :
    (ofList edges).toList = edges := by
  induction edges using List.reverseRecOn with
  | nil => rfl
  | append_singleton edges e ih =>
    rw [← List.concat_eq_append, List.nodup_concat] at h
    obtain ⟨hnew, hfront⟩ := h
    rw [toList_ofList_concat, ih hfront, if_neg (mt List.contains_iff_mem.mp hnew)]

/-- **The table follows the edges.** After any insertions the table has a variable as a direct
source of another exactly if the list has that edge, no edge stands in the list twice, and the
direct sources of a variable are those of its edges, in edge order. The list of a graph gives
the same graph again. Conversely, the graph of a list has the edges of the list at their first
occurrences, which are all of them if none is repeated. -/
theorem table_follows_edges :
    (∀ g : InfluenceGraph, g.Built →
        (∀ scope v u, u ∈ g.direct scope v ↔ ⟨scope, v, u⟩ ∈ g.toList)
          ∧ g.toList.Nodup
          ∧ (∀ scope v, g.direct scope v
              = (g.toList.filter fun e => e.scope = scope ∧ e.target = v).map Edge.source)
          ∧ ofList g.toList = g)
      ∧ ∀ edges : List Edge, (ofList edges).toList = edges.eraseDups
          ∧ (edges.Nodup → (ofList edges).toList = edges) := by
  constructor
  · intro g hg
    exact ⟨hg.consistent.mem_direct_iff, hg.nodup_toList, hg.consistent, hg.ofList_toList⟩
  · intro edges
    exact ⟨toList_ofList edges, toList_ofList_of_nodup⟩

/-- Edges of two scopes, in which the same variable has sources in both, with the first edge
repeated at the end. -/
def braid : List Edge :=
  [⟨⟨0⟩, ⟨2⟩, ⟨1⟩⟩, ⟨⟨1⟩, ⟨2⟩, ⟨0⟩⟩, ⟨⟨0⟩, ⟨2⟩, ⟨0⟩⟩, ⟨⟨0⟩, ⟨2⟩, ⟨1⟩⟩]

/-- The repetition is dropped, the sources stay apart by scope, and neither the shortened list
nor the graph changes any more. -/
theorem table_follows_edges_braid :
    (ofList braid).Built
      ∧ (ofList braid).direct ⟨0⟩ ⟨2⟩ = [⟨1⟩, ⟨0⟩]
      ∧ ⟨⟨1⟩, ⟨2⟩, ⟨1⟩⟩ ∉ (ofList braid).toList
      ∧ (ofList braid).toList = braid.take 3
      ∧ (braid.take 3).Nodup
      ∧ (ofList (braid.take 3)).toList = braid.take 3
      ∧ ofList (ofList braid).toList = ofList braid := by
  obtain ⟨hgraphs, hlists⟩ := table_follows_edges
  have hbuilt : (ofList braid).Built := built_ofList braid
  obtain ⟨hmem, -, hdirect, hback⟩ := hgraphs (ofList braid) hbuilt
  have hlist : (ofList braid).toList = braid.take 3 := (hlists braid).1.trans (by decide)
  have hnodup : (braid.take 3).Nodup := by decide
  refine ⟨hbuilt, ?_, ?_, hlist, hnodup, (hlists (braid.take 3)).2 hnodup, hback⟩
  · rw [hdirect, hlist]
    rfl
  · rw [← hmem]
    decide

end InfluenceGraph

end PriceTaint
