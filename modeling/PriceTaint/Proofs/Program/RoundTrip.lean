/-
Documents survive their text.

A document is rendered as the indented text of its JSON form, and parsing that
text gives the same document: the same program, the same edges in the same order,
and the same table of direct sources. A reader builds its graph by inserting the
edges it reads, so the table comes back because a graph that was itself built by
insertions is the graph of its own edges.

Whatever a text is that parses, the document in it has word-sized handles and a
built graph. So every accepted text has a canonical form, the rendering of its
document, and the canonical form is its own.
-/
import PriceTaint.Document
import PriceTaint.Proofs.Influence.Closure
import PriceTaint.Proofs.Program.Format

set_option autoImplicit false

namespace PriceTaint

open Json (Faithful)

/-! ## Edges and graphs -/

structure Edge.WordSized (e : Edge) : Prop where
  scope : e.scope.IsWord
  target : e.target.IsWord
  source : e.source.IsWord

theorem Edge.faithful : Faithful Edge.toJson Edge.ofJson? Edge.WordSized 1 where
  reads {e} h := by
    obtain ⟨fields, hfields, hmembers⟩ :=
      Json.fields?_of_object e.toJson fieldNames rfl rfl (by decide)
    simp only [List.forall_mem_cons] at hmembers
    obtain ⟨hscope, htarget, hsource, -⟩ := hmembers
    simp only [ofJson?, hfields, Option.bind_eq_bind, Option.bind_some, Option.pure_def,
      Handle.faithful.reads_required hscope h.scope,
      Handle.faithful.reads_required htarget h.target,
      Handle.faithful.reads_required hsource h.source]
  legible {e} h := by
    refine .object ?_
    simp only [List.forall_mem_cons]
    exact ⟨Handle.faithful.legible h.scope, Handle.faithful.legible h.target,
      Handle.faithful.legible h.source, List.forall_mem_nil _⟩
  fits {v e} h := by
    simp only [ofJson?, Option.bind_eq_bind, Option.bind_eq_some_iff, Option.pure_def,
      Option.some.injEq] at h
    obtain ⟨fields, -, scope, hscope, target, htarget, source, hsource, rfl⟩ := h
    exact ⟨Handle.faithful.fits_required hscope, Handle.faithful.fits_required htarget,
      Handle.faithful.fits_required hsource⟩

namespace InfluenceGraph

/-- A graph that came about by insertions, with words as handles. -/
structure Storable (g : InfluenceGraph) : Prop where
  built : g.Built
  edges : ∀ e ∈ g.toList, e.WordSized

theorem faithful : Faithful toJson ofJson? Storable 2 where
  reads {g} h := by
    -- reading inserts the edges again, which rebuilds the table as well
    rw [ofJson?, toJson, Edge.faithful.list.reads h.edges, Option.map_some, h.built.ofList_toList]
  legible h := Edge.faithful.list.legible h.edges
  fits {v g} h := by
    obtain ⟨edges, hedges, rfl⟩ := Option.map_eq_some_iff.mp h
    exact ⟨built_ofList edges, fun e he =>
      Edge.faithful.list.fits hedges e ((mem_toList_ofList_iff edges e).mp he)⟩

theorem storable_empty : empty.Storable := ⟨.empty, List.forall_mem_nil _⟩

end InfluenceGraph

/-! ## Documents -/

namespace Document

/-- All handles of the document are 64-bit words. -/
structure WordSized (d : Document) : Prop where
  program : d.program.WordSized
  edges : ∀ e ∈ d.influence.toList, e.WordSized

/-- What the format can hold. -/
structure Storable (d : Document) : Prop where
  built : d.influence.Built
  words : d.WordSized

theorem Storable.influence {d : Document} (h : d.Storable) : d.influence.Storable :=
  ⟨h.built, h.words.edges⟩

theorem faithful : Faithful toJson ofJson? Storable 7 where
  reads {d} h := by
    obtain ⟨fields, hfields, hmembers⟩ :=
      Json.fields?_of_object d.toJson fieldNames rfl rfl (by decide)
    simp only [List.forall_mem_cons] at hmembers
    obtain ⟨hprogram, hinfluence, -⟩ := hmembers
    simp only [ofJson?, hfields, Option.bind_eq_bind, Option.bind_some, Option.pure_def,
      Program.faithful.reads_required hprogram h.words.program,
      InfluenceGraph.faithful.reads_withDefault hinfluence h.influence]
  legible {d} h := by
    refine .object ?_
    simp only [List.forall_mem_cons]
    exact ⟨Program.faithful.legible h.words.program,
      (InfluenceGraph.faithful.legible h.influence).mono (by decide), List.forall_mem_nil _⟩
  fits {v d} h := by
    simp only [ofJson?, Option.bind_eq_bind, Option.bind_eq_some_iff, Option.pure_def,
      Option.some.injEq] at h
    obtain ⟨fields, -, program, hprogram, influence, hinfluence, rfl⟩ := h
    have hgraph := InfluenceGraph.faithful.fits_withDefault InfluenceGraph.storable_empty hinfluence
    exact ⟨hgraph.built, Program.faithful.fits_required hprogram, hgraph.edges⟩

/-- The text of a document is read as its JSON form, whatever the strings in it. -/
theorem Storable.parse?_render {d : Document} (h : d.Storable) :
    Json.parse? d.render = some d.toJson :=
  Json.parse?_pretty ((faithful.legible h).mono (by decide))

/-- What is left of parsing such a text is the validation of the document. -/
theorem Storable.parse_render_of_valid {d : Document} (h : d.Storable)
    (hvalid : d.validate = .ok ()) : parse d.render = .ok d := by
  rw [parse, h.parse?_render, Option.bind_some, faithful.reads h]
  simp only [hvalid]

/-- What `parse` accepts is a storable document, and a valid one. -/
theorem storable_of_parse {text : String} {d : Document} (h : parse text = .ok d) :
    d.Storable ∧ d.validate = .ok () := by
  rw [parse] at h
  split at h
  · cases h
  · rename_i e hread
    split at h
    · rename_i hvalid
      cases h
      obtain ⟨v, -, hv⟩ := Option.bind_eq_some_iff.mp hread
      exact ⟨faithful.fits hv, hvalid⟩
    · cases h

/-- **Documents survive their text.** Rendering a valid document and parsing the
text gives that very document, with its edges and its table of direct sources. The
document in any text that parses is among them, so that its rendering parses to it
again and is rendered the same. -/
theorem parse_render :
    (∀ d : Document, d.validate = .ok () → d.influence.Built → d.WordSized →
        parse d.render = .ok d) ∧
      ∀ (text : String) (d : Document), parse text = .ok d →
        parse d.render = .ok d ∧ (parse d.render).map render = .ok d.render := by
  refine ⟨fun d hvalid hbuilt hwords => Storable.parse_render_of_valid ⟨hbuilt, hwords⟩ hvalid, ?_⟩
  intro text d hparse
  obtain ⟨hstorable, hvalid⟩ := storable_of_parse hparse
  have hback := hstorable.parse_render_of_valid hvalid
  exact ⟨hback, by rw [hback]; rfl⟩

/-- A document with every way of writing a choice, texts that have to be escaped or
are not ASCII, and an edge that was inserted twice. -/
def awkward : Document where
  program := {
    contracts := #[⟨"\"Pool\"", false, [⟨0⟩], [⟨0⟩]⟩]
    functions := #[⟨"\\", "f(\x01)", .fallback, ⟨0⟩, [⟨0⟩], [⟨1⟩]⟩]
    nodes := #[⟨⟨0⟩, .ret, [⟨0⟩], [.function ⟨0⟩, .builtin "é"], [⟨0⟩], [⟨1⟩], true, "a\n\tb",
      [.eventCall "", .ret]⟩]
    calls := #[⟨.resolved (.function ⟨0⟩), [⟨"\u2126", .wrapped ⟨1⟩⟩, ⟨"", .computed⟩], "\r"⟩]
    vars := #[⟨"a", "", .state⟩, ⟨"b", "uint256", .local⟩] }
  influence := .ofList [⟨⟨0⟩, ⟨0⟩, ⟨1⟩⟩, ⟨⟨0⟩, ⟨0⟩, ⟨1⟩⟩]

theorem awkward_wordSized : awkward.WordSized := by
  have hword : ∀ {kind : Kind} {n : Nat}, n < 2 → Handle.IsWord (⟨n⟩ : Handle kind) :=
    fun hn => hn.trans (by decide)
  have hsingle : ∀ {kind : Kind} {n : Nat}, n < 2 → Handle.AllWords [(⟨n⟩ : Handle kind)] :=
    fun hn => List.forall_mem_singleton.mpr (hword hn)
  refine ⟨⟨?_, ?_, ?_, ?_⟩, ?_⟩
  · exact List.forall_mem_singleton.mpr ⟨hsingle (by decide), hsingle (by decide)⟩
  · exact List.forall_mem_singleton.mpr
      ⟨hword (by decide), hsingle (by decide), hsingle (by decide)⟩
  · refine List.forall_mem_singleton.mpr
      ⟨hword (by decide), hsingle (by decide), ?_, hsingle (by decide), hsingle (by decide)⟩
    exact List.forall_mem_cons.mpr ⟨hword (by decide), List.forall_mem_singleton.mpr trivial⟩
  · refine List.forall_mem_singleton.mpr ⟨hword (by decide), ?_⟩
    exact List.forall_mem_cons.mpr ⟨hword (by decide), List.forall_mem_singleton.mpr trivial⟩
  · intro e he
    obtain rfl : e = ⟨⟨0⟩, ⟨0⟩, ⟨1⟩⟩ := by
      simpa using (InfluenceGraph.mem_toList_ofList_iff _ e).mp he
    exact ⟨hword (by decide), hword (by decide), hword (by decide)⟩

theorem parse_render_awkward :
    awkward.validate = .ok () ∧ awkward.influence.Built ∧ awkward.WordSized ∧
      parse awkward.render = .ok awkward ∧
      (parse awkward.render).map render = .ok awkward.render := by
  have hvalid : awkward.validate = .ok () := rfl
  have hbuilt : awkward.influence.Built := InfluenceGraph.built_ofList _
  have hback := parse_render.1 awkward hvalid hbuilt awkward_wordSized
  exact ⟨hvalid, hbuilt, awkward_wordSized, hback, (parse_render.2 _ awkward hback).2⟩

end Document

end PriceTaint
