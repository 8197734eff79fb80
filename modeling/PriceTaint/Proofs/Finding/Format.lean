/-
Findings survive their JSON form.

Fields that have nothing to say are left out of the text: a snippet, the details or the
advice that are not there, and lists of names without a name. The reader takes what is
left out for absent or empty, so nothing is lost by it, and absent details stay different
from details that say nothing.

Two things in a finding could get lost. A node index is read only if it is a 64-bit word,
and a score only as far as binary rounding allows. Findings take their scores from their
confidence, which has three, and these three are read as they were written.
-/
import PriceTaint.Finding.Format
import PriceTaint.Proofs.Json.Codec

set_option autoImplicit false

namespace PriceTaint

open Json (Recovers Faithful Anything Legible faithful_text)

/-! ## Grades and scores -/

theorem Severity.faithful : Faithful Severity.toJson Severity.ofJson? Anything 0 :=
  Json.faithful_choice fun severity => by cases severity <;> rfl

theorem Confidence.faithful : Faithful Confidence.toJson Confidence.ofJson? Anything 0 :=
  Json.faithful_choice fun confidence => by cases confidence <;> rfl

/-- The score of a confidence is read as it is written. -/
theorem Score.recovers :
    Recovers (fun s : Score => .number s.toNumeral) Json.score?
      (fun s => ∃ c : Confidence, s = c.score) 0 where
  reads := by
    rintro s ⟨c, rfl⟩
    cases c <;> decide
  legible := by
    rintro s ⟨c, rfl⟩
    refine .number 0 ?_
    cases c <;> exact ⟨⟨'0', _, rfl, rfl⟩, List.all_eq_true.mp rfl, by decide, by decide⟩

/-! ## Locations -/

namespace Location

theorem toJson_eq (l : Location) :
    l.toJson = .object (Json.written [
      ("contract", some (.string l.contract)),
      ("function", some (.string l.function)),
      ("node", some (.ofNat l.node)),
      ("snippet", l.snippet.map .string)]) := by
  rw [toJson]
  cases l.snippet <;> rfl

theorem recovers : Recovers toJson ofJson? (fun l => l.node < Numeral.indexLimit) 1 where
  reads {l} hnode := by
    obtain ⟨fields, hfields, hslots⟩ :=
      Json.fields?_of_written _ l.toJson fieldNames l.toJson_eq rfl (by decide)
    simp only [List.forall_mem_cons] at hslots
    obtain ⟨hcontract, hfunction, hindex, hsnippet, -⟩ := hslots
    simp only [ofJson?, hfields, Option.bind_eq_bind, Option.bind_some, Option.pure_def,
      faithful_text.reads_required hcontract trivial,
      faithful_text.reads_required hfunction trivial,
      Json.faithful_index.reads_required hindex hnode,
      faithful_text.reads_nullable nofun hsnippet fun _ _ => trivial]
  legible {l} hnode := by
    rw [toJson_eq]
    refine .of_written ?_
    simp only [List.forall_mem_cons, Option.mem_def, Option.some.injEq, forall_eq',
      Option.map_eq_some_iff, forall_exists_index, and_imp, forall_apply_eq_imp_iff₂]
    exact ⟨.string 0 _, .string 0 _, Json.faithful_index.legible hnode, fun s _ => .string 0 s,
      List.forall_mem_nil _⟩

end Location

/-! ## Details -/

namespace Details

/-- What is written of a list of names. -/
def namesSlot (names : List String) : Option Json :=
  if names.isEmpty then none else some (.ofList .string names)

theorem toJson_eq (d : Details) :
    d.toJson = .object (Json.written [
      ("affected_functions", namesSlot d.affectedFunctions),
      ("affected_variables", namesSlot d.affectedVariables),
      ("affected_contracts", namesSlot d.affectedContracts),
      ("recommendation", d.recommendation.map .string)]) := by
  obtain ⟨functions, affected, contracts, advice⟩ := d
  cases functions <;> cases affected <;> cases contracts <;> cases advice <;> rfl

theorem legible_namesSlot (names : List String) : ∀ v ∈ namesSlot names, Legible 1 v := by
  intro v hv
  rw [namesSlot, Option.mem_def, Option.ite_none_left_eq_some, Option.some.injEq] at hv
  obtain ⟨-, rfl⟩ := hv
  exact faithful_text.list.legible fun _ _ => trivial

theorem recovers : Recovers toJson ofJson? Anything 2 where
  reads {d} _ := by
    obtain ⟨fields, hfields, hslots⟩ :=
      Json.fields?_of_written _ d.toJson fieldNames d.toJson_eq rfl (by decide)
    simp only [List.forall_mem_cons] at hslots
    obtain ⟨hfunctions, hvariables, hcontracts, hadvice, -⟩ := hslots
    simp only [ofJson?, hfields, Option.bind_eq_bind, Option.bind_some, Option.pure_def,
      faithful_text.reads_unlessEmpty hfunctions fun _ _ => trivial,
      faithful_text.reads_unlessEmpty hvariables fun _ _ => trivial,
      faithful_text.reads_unlessEmpty hcontracts fun _ _ => trivial,
      faithful_text.reads_nullable nofun hadvice fun _ _ => trivial]
  legible {d} _ := by
    rw [toJson_eq]
    refine .of_written ?_
    simp only [List.forall_mem_cons, Option.mem_def, Option.map_eq_some_iff, forall_exists_index,
      and_imp, forall_apply_eq_imp_iff₂]
    exact ⟨legible_namesSlot _, legible_namesSlot _, legible_namesSlot _, fun s _ => .string 1 s,
      List.forall_mem_nil _⟩

end Details

/-! ## Findings -/

namespace Finding

/-- What it takes for a finding to be stored: its score is that of a confidence, and its
locations are words. -/
structure Storable (f : Finding) : Prop where
  score : ∃ c : Confidence, f.score = c.score
  nodes : ∀ l ∈ f.locations, l.node < Numeral.indexLimit

theorem toJson_eq (f : Finding) :
    f.toJson = .object (Json.written [
      ("scanner_id", some (.string f.scannerId)),
      ("severity", some f.severity.toJson),
      ("confidence", some f.confidence.toJson),
      ("confidence_score", some (.number f.score.toNumeral)),
      ("title", some (.string f.title)),
      ("description", some (.string f.description)),
      ("locations", some (.ofList Location.toJson f.locations)),
      ("metadata", f.details.map Details.toJson)]) := by
  rw [toJson]
  cases f.details <;> rfl

theorem recovers : Recovers toJson ofJson? Storable 3 where
  reads {f} h := by
    obtain ⟨fields, hfields, hslots⟩ :=
      Json.fields?_of_written _ f.toJson fieldNames f.toJson_eq rfl (by decide)
    simp only [List.forall_mem_cons] at hslots
    obtain ⟨hscanner, hseverity, hconfidence, hscore, htitle, hdescription, hlocations, hdetails,
      -⟩ := hslots
    have hcomplete : isComplete f.toJson = true := rfl
    simp only [ofJson?, hfields, hcomplete, Option.bind_eq_bind, Option.bind_some,
      Option.pure_def, Bool.not_true, Bool.false_eq_true, if_false,
      faithful_text.reads_required hscanner trivial,
      Severity.faithful.reads_required hseverity trivial,
      Confidence.faithful.reads_required hconfidence trivial,
      Score.recovers.reads_required hscore h.score,
      faithful_text.reads_required htitle trivial,
      faithful_text.reads_required hdescription trivial,
      Location.recovers.list.reads_required hlocations h.nodes,
      Details.recovers.reads_nullable nofun hdetails fun _ _ => trivial]
  legible {f} h := by
    rw [toJson_eq]
    refine .of_written ?_
    simp only [List.forall_mem_cons, Option.mem_def, Option.some.injEq, forall_eq',
      Option.map_eq_some_iff, forall_exists_index, and_imp, forall_apply_eq_imp_iff₂]
    exact ⟨.string 2 _, (Severity.faithful.legible trivial).mono (by decide),
      (Confidence.faithful.legible trivial).mono (by decide),
      (Score.recovers.legible h.score).mono (by decide), .string 2 _, .string 2 _,
      Location.recovers.list.legible h.nodes, fun d _ => Details.recovers.legible trivial,
      List.forall_mem_nil _⟩

theorem recovers_list :
    Recovers listToJson listOfJson? (fun fs => ∀ f ∈ fs, f.Storable) 4 :=
  recovers.list

end Finding

end PriceTaint
