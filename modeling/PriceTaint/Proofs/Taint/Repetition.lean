/-
Repetitions in a program do not show in its reports.

A contract that inherits a function along two ways lists it twice, and a list of
nodes, calls or variables may repeat its elements too. Such repetitions multiply the
reads and flows at every level of the walk. A report in which each node stands once
does not show them: all that it takes from a list is which of the elements that meet
some condition comes first.

That is the relation between the lists of two runs which the proof carries through
all stages, `SameFirsts`. It is kept by everything the analysis does to lists, and
where it holds of the flows, the reports are equal.
-/
import Mathlib.Data.List.Find
import PriceTaint.Proofs.Taint.Flow

set_option autoImplicit false

namespace PriceTaint

/-! ## Lists with the same firsts -/

/-- For every condition, the first element that meets it is the same in both lists. -/
def SameFirsts {α : Type} (xs ys : List α) : Prop :=
  ∀ cond : α → Bool, xs.find? cond = ys.find? cond

namespace SameFirsts

variable {α β : Type} {xs ys zs : List α}

theorem refl (xs : List α) : SameFirsts xs xs := fun _ => rfl

theorem symm (h : SameFirsts xs ys) : SameFirsts ys xs := fun cond => (h cond).symm

theorem trans (h : SameFirsts xs ys) (h' : SameFirsts ys zs) : SameFirsts xs zs :=
  fun cond => (h cond).trans (h' cond)

theorem any_eq (h : SameFirsts xs ys) (cond : α → Bool) : xs.any cond = ys.any cond := by
  rw [Bool.eq_iff_iff, List.any_eq_true, List.any_eq_true, ← List.find?_isSome,
    ← List.find?_isSome, h cond]

theorem isEmpty_eq (h : SameFirsts xs ys) : xs.isEmpty = ys.isEmpty := by
  have hany := h.any_eq fun _ => true
  cases xs <;> cases ys <;> simp_all

theorem append {xs' ys' : List α} (h : SameFirsts xs ys) (h' : SameFirsts xs' ys') :
    SameFirsts (xs ++ xs') (ys ++ ys') := by
  intro cond
  rw [List.find?_append, List.find?_append, h cond, h' cond]

theorem map (h : SameFirsts xs ys) (f : α → β) : SameFirsts (xs.map f) (ys.map f) := by
  intro cond
  rw [List.find?_map, List.find?_map, h]

theorem filter (h : SameFirsts xs ys) (keep : α → Bool) :
    SameFirsts (xs.filter keep) (ys.filter keep) := by
  intro cond
  rw [List.find?_filter, List.find?_filter, h]

theorem filterMap (h : SameFirsts xs ys) (f : α → Option β) :
    SameFirsts (xs.filterMap f) (ys.filterMap f) := by
  intro cond
  rw [List.find?_filterMap, List.find?_filterMap, h]

/-- What a search for a value finds is the value of the first element that has one. -/
theorem findSome?_eq_bind (f : α → Option β) (xs : List α) :
    xs.findSome? f = (xs.find? fun x => (f x).isSome).bind f := by
  induction xs with
  | nil => rfl
  | cons x xs ih =>
    rw [List.findSome?_cons, List.find?_cons]
    cases hx : f x with
    | none => simpa using ih
    | some y => simp [hx]

theorem flatMap {f g : α → List β} (h : SameFirsts xs ys)
    (hfg : ∀ x ∈ xs, SameFirsts (f x) (g x)) : SameFirsts (xs.flatMap f) (ys.flatMap g) := by
  intro cond
  -- the elements may be compared by `f` on one list, and then the lists under `g`
  have hleft : xs.findSome? (fun x => (f x).find? cond)
      = xs.findSome? fun x => (g x).find? cond := by
    clear h
    induction xs with
    | nil => rfl
    | cons x xs ih =>
      obtain ⟨hx, hxs⟩ := List.forall_mem_cons.mp hfg
      rw [List.findSome?_cons, List.findSome?_cons, hx cond, ih hxs]
  rw [List.find?_flatMap, List.find?_flatMap, hleft, findSome?_eq_bind, findSome?_eq_bind, h]

/-- Removing repetitions keeps all firsts. -/
theorem eraseDups [BEq α] [LawfulBEq α] : (xs : List α) → SameFirsts xs.eraseDups xs
  | [] => refl []
  | x :: xs => by
    intro cond
    rw [List.eraseDups_cons, List.find?_cons, List.find?_cons]
    cases hx : cond x with
    | true => rfl
    | false =>
      -- an element that meets the condition differs from `x`, so it has not been removed
      have hne : ∀ y ∈ xs, decide ((!y == x) = true ∧ cond y = true) = cond y := by
        intro y _
        by_cases hyx : y = x
        · subst hyx
          simp [hx]
        · simp [hyx]
      rw [eraseDups (xs.filter fun y => !y == x) cond, List.find?_filter, List.find?_congr hne]
termination_by xs => xs.length
decreasing_by
  rw [List.length_cons]
  exact Nat.lt_succ_of_le (List.length_filter_le _ _)

theorem eraseDups_congr [BEq α] [LawfulBEq α] (h : SameFirsts xs ys) :
    SameFirsts xs.eraseDups ys.eraseDups :=
  (eraseDups xs).trans (h.trans (eraseDups ys).symm)

end SameFirsts

/-! ## Reports take firsts only -/

namespace ContractReport

/-- The entry can be reported, and its node has no entry yet. -/
def isNew (p : Program) (seen : List NodeId) (e : Entry) : Bool :=
  !seen.contains e.node && p.isReportable e.node

section Keep

variable {p : Program} {seen : List NodeId} {e : Entry}

theorem keep_cons_of_isNew (h : isNew p seen e = true) (entries : List Entry) :
    keep p true seen (e :: entries) = e :: keep p true (e.node :: seen) entries := by
  rw [keep, if_neg]
  simpa [isNew] using h

theorem keep_cons_of_not_isNew (h : isNew p seen e = false) (entries : List Entry) :
    keep p true seen (e :: entries) = keep p true seen entries := by
  rw [keep, if_pos]
  simpa [isNew, Decidable.or_iff_not_imp_left] using h

/-- An entry is no longer new once its node has been seen. -/
theorem isNew_cons_self : isNew p (e.node :: seen) e = false := by
  simp [isNew]

theorem isNew_cons_eq_false (h : isNew p seen e = false) (n : NodeId) :
    isNew p (n :: seen) e = false := by
  simp only [isNew, List.contains_cons, Bool.not_or, Bool.and_assoc] at h ⊢
  rw [h, Bool.and_false]

end Keep

/-- What is kept, without walking along the list: the first new entry, and then what
is kept of the same entries with its node seen. -/
theorem keep_true_eq (p : Program) (seen : List NodeId) (entries : List Entry) :
    keep p true seen entries
      = match entries.find? (isNew p seen) with
        | none => []
        | some e => e :: keep p true (e.node :: seen) entries := by
  induction entries generalizing seen with
  | nil => rfl
  | cons e entries ih =>
    by_cases hnew : isNew p seen e = true
    · rw [List.find?_cons_of_pos hnew, keep_cons_of_isNew hnew]
      dsimp only
      rw [keep_cons_of_not_isNew isNew_cons_self]
    · rw [List.find?_cons_of_neg hnew, keep_cons_of_not_isNew (Bool.not_eq_true _ ▸ hnew), ih seen]
      cases entries.find? (isNew p seen) with
      | none => rfl
      | some found =>
        -- what has been dropped once is dropped again when more nodes are seen
        dsimp only
        rw [keep_cons_of_not_isNew (isNew_cons_eq_false (Bool.not_eq_true _ ▸ hnew) found.node)]

/-- Entries with the same firsts are kept alike. -/
theorem keep_true_congr {p : Program} {entries entries' : List Entry}
    (h : SameFirsts entries entries') (seen : List NodeId) :
    keep p true seen entries = keep p true seen entries' := by
  -- by induction on what is kept of the first list, from its front
  generalize hkept : keep p true seen entries = kept
  induction kept generalizing seen with
  | nil =>
    rw [keep_true_eq] at hkept ⊢
    rw [← h]
    cases hfind : entries.find? (isNew p seen) with
    | none => rfl
    | some e => simp [hfind] at hkept
  | cons e kept ih =>
    rw [keep_true_eq] at hkept ⊢
    rw [← h]
    cases hfind : entries.find? (isNew p seen) with
    | none => simp [hfind] at hkept
    | some found =>
      simp only [hfind, List.cons.injEq] at hkept
      obtain ⟨rfl, hrest⟩ := hkept
      dsimp only
      rw [ih (found.node :: seen) hrest]

end ContractReport

/-! ## Programs without repetitions -/

/-- The contract, listing each function once. -/
def Contract.eraseDups (c : Contract) : Contract := { c with functions := c.functions.eraseDups }

/-- The function, listing each node and each return variable once. -/
def Function.eraseDups (f : Function) : Function :=
  { f with nodes := f.nodes.eraseDups, returns := f.returns.eraseDups }

/-- The node, listing each call and each variable once. -/
def Node.eraseDups (n : Node) : Node :=
  { n with
    calls := n.calls.eraseDups
    internalCalls := n.internalCalls.eraseDups
    written := n.written.eraseDups
    read := n.read.eraseDups }

namespace Program

/-- The program with every list that the analysis goes through reduced to first
occurrences. -/
def eraseDups (p : Program) : Program :=
  { p with
    contracts := p.contracts.map Contract.eraseDups
    functions := p.functions.map Function.eraseDups
    nodes := p.nodes.map Node.eraseDups }

variable (p : Program)

theorem contractAt?_eraseDups (id : ContractId) :
    p.eraseDups.contractAt? id = (p.contractAt? id).map Contract.eraseDups :=
  Array.getElem?_map

theorem functionAt?_eraseDups (id : FunctionId) :
    p.eraseDups.functionAt? id = (p.functionAt? id).map Function.eraseDups :=
  Array.getElem?_map

theorem nodeAt?_eraseDups (id : NodeId) :
    p.eraseDups.nodeAt? id = (p.nodeAt? id).map Node.eraseDups :=
  Array.getElem?_map

theorem callAt?_eraseDups (id : CallId) : p.eraseDups.callAt? id = p.callAt? id := rfl

theorem variableAt?_eraseDups (id : VariableId) : p.eraseDups.variableAt? id = p.variableAt? id :=
  rfl

/-! ### Names and kinds are as before -/

theorem functionName_eraseDups (id : FunctionId) :
    p.eraseDups.functionName id = p.functionName id := by
  rw [functionName, functionName, functionAt?_eraseDups, Option.map_map]
  rfl

theorem declaredNames_eraseDups (id : ContractId) :
    p.eraseDups.declaredNames id = p.declaredNames id := by
  rw [declaredNames, declaredNames, contractAt?_eraseDups]
  cases p.contractAt? id with
  | none => rfl
  | some c => simp only [Option.map_some, functionAt?_eraseDups, Option.map_map]; rfl

theorem exemption?_eraseDups (id : ContractId) : p.eraseDups.exemption? id = p.exemption? id := by
  rw [exemption?, exemption?, declaredNames_eraseDups, contractAt?_eraseDups]
  cases p.contractAt? id with
  | none => rfl
  | some c => rfl

theorem isReportable_eraseDups (id : NodeId) :
    p.eraseDups.isReportable id = p.isReportable id := by
  rw [isReportable, isReportable, nodeAt?_eraseDups]
  cases p.nodeAt? id with
  | none => rfl
  | some n => rfl

/-- A call goes to the same function, whose lists have been reduced. -/
theorem dispatch_eraseDups (c : Call) :
    p.eraseDups.dispatch c
      = match p.dispatch c with
        | .body id f => .body id f.eraseDups
        | other => other := by
  rw [dispatch, dispatch]
  cases c.callee with
  | resolved target =>
    cases target with
    | function id =>
      dsimp only
      rw [functionAt?_eraseDups]
      cases p.functionAt? id with
      | none => rfl
      | some f =>
        have hkind : f.eraseDups.isModifier = f.isModifier := rfl
        dsimp only [Option.map_some]
        rw [hkind]
        cases f.isModifier <;> rfl
    | modifier id => rfl
    | event name => rfl
    | builtin name => rfl
  | member name => rfl
  | other => rfl

theorem callMatches_eraseDups (c : Call) (names : NameSet) :
    p.eraseDups.callMatches c names = p.callMatches c names := by
  rw [callMatches, callMatches, dispatch_eraseDups]
  cases p.dispatch c <;> rfl

/-! ### Bodies -/

/-- The nodes of a function come first in the same order, with their lists reduced. -/
theorem bodyOf_eraseDups (f : FunctionId) :
    SameFirsts (p.eraseDups.bodyOf f) ((p.bodyOf f).map fun e => (e.1, e.2.eraseDups)) := by
  rw [bodyOf, bodyOf, functionAt?_eraseDups]
  cases p.functionAt? f with
  | none => exact .refl []
  | some function =>
    simp only [Option.map_some, nodeAt?_eraseDups, Option.map_map, List.map_filterMap]
    exact (SameFirsts.eraseDups function.nodes).filterMap _

/-- Whatever is collected over the nodes of a function has the same firsts, if what
each node contributes has. -/
theorem flatMap_bodyOf_eraseDups {α : Type} (f : FunctionId)
    {collect collect' : NodeId × Node → List α}
    (h : ∀ id n, SameFirsts (collect (id, n.eraseDups)) (collect' (id, n))) :
    SameFirsts ((p.eraseDups.bodyOf f).flatMap collect) ((p.bodyOf f).flatMap collect') := by
  refine ((p.bodyOf_eraseDups f).flatMap fun e _ => .refl (collect e)).trans ?_
  rw [List.flatMap_map]
  exact (SameFirsts.refl _).flatMap fun e _ => h e.1 e.2

theorem callsOf_eraseDups (f : FunctionId) :
    SameFirsts (p.eraseDups.callsOf f) (p.callsOf f) :=
  p.flatMap_bodyOf_eraseDups f fun _ n => .eraseDups n.calls

end Program

/-! ## Reads -/

namespace Lens

variable (lens : Lens) (p : Program)

theorem admits_eraseDups (c : Call) : lens.admits p.eraseDups c = lens.admits p c := by
  rw [admits, admits, Program.callMatches_eraseDups]
  rfl

theorem readsAt_eraseDups {inside inside' : FunctionId → List CallId}
    (h : ∀ g, SameFirsts (inside g) (inside' g)) (id : CallId) :
    SameFirsts (lens.readsAt p.eraseDups inside id) (lens.readsAt p inside' id) := by
  rw [readsAt, readsAt, Program.callAt?_eraseDups]
  cases p.callAt? id with
  | none => exact .refl []
  | some c =>
    dsimp only
    rw [Program.dispatch_eraseDups, Program.callMatches_eraseDups, admits_eraseDups]
    cases p.dispatch c with
    | body callee f =>
      dsimp only
      by_cases hmatch : p.callMatches c lens.reads = true
      · rw [if_pos hmatch, if_pos hmatch]
        exact .refl _
      · rw [if_neg hmatch, if_neg hmatch]
        exact h callee
    | member name => exact .refl _
    | unseen => exact .refl _

/-- The walk through calls finds the same reads first. -/
theorem callReads_eraseDups (depth : Nat) (f : FunctionId) :
    SameFirsts (lens.callReads p.eraseDups depth f) (lens.callReads p depth f) := by
  induction depth generalizing f with
  | zero =>
    rw [callReads_zero, callReads_zero]
    exact .refl []
  | succ depth ih =>
    rw [callReads_succ, callReads_succ]
    exact (p.callsOf_eraseDups f).flatMap fun id _ => lens.readsAt_eraseDups p ih id

theorem takesSnapshot_eraseDups (n : Node) :
    takesSnapshot p.eraseDups n.eraseDups = takesSnapshot p n := by
  rw [takesSnapshot, takesSnapshot]
  simp only [Program.variableAt?_eraseDups]
  have hany := (SameFirsts.eraseDups n.written).any_eq fun id =>
    (p.variableAt? id).any fun v => isSnapshotName v.name
  exact congrArg (n.shape == .assignment && ·) hany

theorem nativeReads_eraseDups (n : Node) :
    SameFirsts (lens.nativeReads n.eraseDups) (lens.nativeReads n) := by
  rw [nativeReads, nativeReads]
  have htext : n.eraseDups.text = n.text := rfl
  rw [htext]
  by_cases hnative : (lens.nativeBalance && !Text.contains n.text Call.selfAddress) = true
  · rw [if_pos hnative, if_pos hnative]
    exact (SameFirsts.eraseDups n.internalCalls).filterMap _
  · rw [if_neg hnative, if_neg hnative]
    exact .refl []

/-- The footprint of a node has the same firsts, in what it assigns and in what it
reads. -/
theorem footprint_eraseDups (depth : Nat) (n : Node) :
    SameFirsts (lens.footprint p.eraseDups depth n.eraseDups).written
        (lens.footprint p depth n).written
      ∧ SameFirsts (lens.footprint p.eraseDups depth n.eraseDups).reads
        (lens.footprint p depth n).reads := by
  rw [footprint_eq, footprint_eq, takesSnapshot_eraseDups]
  by_cases hsnap : takesSnapshot p n = true
  · rw [if_pos hsnap, if_pos hsnap]
    exact ⟨.refl [], .refl []⟩
  · rw [if_neg hsnap, if_neg hsnap]
    constructor
    · have hshape : n.eraseDups.shape = n.shape := rfl
      dsimp only
      rw [hshape]
      by_cases hassign : n.shape = .assignment
      · rw [if_pos hassign, if_pos hassign]
        exact .eraseDups n.written
      · rw [if_neg hassign, if_neg hassign]
        exact .refl []
    · have hcalls : SameFirsts
          (n.eraseDups.calls.flatMap (lens.readsAt p.eraseDups (lens.callReads p.eraseDups depth)))
          (n.calls.flatMap (lens.readsAt p (lens.callReads p depth))) :=
        (SameFirsts.eraseDups n.calls).flatMap fun id _ =>
          lens.readsAt_eraseDups p (lens.callReads_eraseDups p depth) id
      exact (hcalls.map PriceRead.call).append (lens.nativeReads_eraseDups n)

end Lens

/-! ## Flows -/

namespace Analysis

/-- The same analysis of the program without repetitions. -/
def eraseDups (a : Analysis) : Analysis := { a with program := a.program.eraseDups }

variable (a : Analysis)

theorem movedAmounts_eraseDups (p : Program) (f : FunctionId) :
    SameFirsts (movedAmounts p.eraseDups f) (movedAmounts p f) := by
  rw [movedAmounts, movedAmounts]
  simp only [Program.callMatches_eraseDups]
  refine SameFirsts.flatMap ?_ fun c _ => .refl _
  exact ((p.callsOf_eraseDups f).filterMap p.callAt?).filter _

theorem returnedValues_eraseDups (p : Program) (f : FunctionId) :
    SameFirsts (returnedValues p.eraseDups f) (returnedValues p f) := by
  rw [returnedValues, returnedValues, List.flatMap_filter_eq, List.flatMap_filter_eq,
    Program.functionAt?_eraseDups]
  refine SameFirsts.append (p.flatMap_bodyOf_eraseDups f fun id n => ?_) ?_
  · have hreturns : n.eraseDups.willReturn = n.willReturn := rfl
    dsimp only
    rw [hreturns]
    by_cases hret : n.willReturn = true
    · rw [if_pos hret, if_pos hret]
      exact .eraseDups n.read
    · rw [if_neg hret, if_neg hret]
      exact .refl []
  · cases p.functionAt? f with
    | none => exact .refl []
    | some function => exact .eraseDups function.returns

theorem riskVariables_eraseDups (f : FunctionId) :
    SameFirsts (a.eraseDups.riskVariables f) (a.riskVariables f) := by
  have hlens : a.eraseDups.lens = a.lens := rfl
  rw [riskVariables, riskVariables, hlens]
  cases a.lens.sink with
  | movedAmounts => exact (movedAmounts_eraseDups a.program f).eraseDups_congr
  | returnedValues => exact (returnedValues_eraseDups a.program f).eraseDups_congr

theorem dependentFlows_eraseDups (f : FunctionId) :
    SameFirsts (a.eraseDups.dependentFlows f) (a.dependentFlows f) := by
  rw [dependentFlows_eq, dependentFlows_eq]
  refine (a.riskVariables_eraseDups f).flatMap fun risk _ => ?_
  refine a.program.flatMap_bodyOf_eraseDups f fun id n => ?_
  obtain ⟨hwritten, hreads⟩ := a.lens.footprint_eraseDups a.program a.depth n
  exact (hwritten.filter fun v => a.influence risk v f).flatMap fun tainted _ => hreads.map _

theorem returnsCalls_eraseDups (n : Node) : returnsCalls n.eraseDups = returnsCalls n := by
  have hcalls := (SameFirsts.eraseDups n.calls).isEmpty_eq
  exact congrArg (n.willReturn && !Text.contains n.text "require" && !·) hcalls

theorem returnReads_eraseDups (f : FunctionId) :
    SameFirsts (a.eraseDups.returnReads f) (a.returnReads f) := by
  rw [returnReads_eq, returnReads_eq]
  refine a.program.flatMap_bodyOf_eraseDups f fun id n => ?_
  dsimp only
  rw [returnsCalls_eraseDups]
  by_cases hreturns : returnsCalls n = true
  · rw [if_pos hreturns, if_pos hreturns]
    obtain ⟨-, hreads⟩ := a.lens.footprint_eraseDups a.program a.depth n
    exact hreads.map _
  · rw [if_neg hreturns, if_neg hreturns]
    exact .refl []

theorem returned_eraseDups (f : FunctionId) :
    SameFirsts (a.eraseDups.flows f).returned (a.flows f).returned := by
  have hlens : a.eraseDups.lens = a.lens := rfl
  rw [flows, flows]
  dsimp only
  rw [hlens]
  by_cases hneeds : a.lens.needsInfluence = true
  · rw [if_pos hneeds, if_pos hneeds]
    exact .refl []
  · rw [if_neg hneeds, if_neg hneeds]
    exact (a.returnReads_eraseDups f).map _

/-- The entries of a contract have the same firsts. -/
theorem entries_eraseDups (fs : List FunctionId) :
    SameFirsts (a.eraseDups.flowsOf fs.eraseDups).entries (a.flowsOf fs).entries := by
  rw [entries_flowsOf, entries_flowsOf]
  refine SameFirsts.append ?_ ?_
  · exact (SameFirsts.eraseDups fs).flatMap fun f _ => (a.dependentFlows_eraseDups f).map _
  · exact (SameFirsts.eraseDups fs).flatMap fun f _ => (a.returned_eraseDups f).map _

end Analysis

/-! ## Reports -/

theorem Entry.fragments_eraseDups (p : Program) (e : Entry) :
    e.fragments p.eraseDups = e.fragments p := by
  rw [Entry.fragments, Entry.fragments, Program.functionName_eraseDups]
  cases e with
  | dependent flow => cases flow.read <;> rfl
  | returned flow => cases flow.read <;> rfl

theorem ContractReport.keep_eraseDups (p : Program) (oncePerNode : Bool) (seen : List NodeId)
    (entries : List Entry) :
    keep p.eraseDups oncePerNode seen entries = keep p oncePerNode seen entries := by
  induction entries generalizing seen with
  | nil => rfl
  | cons e entries ih => rw [keep, keep, Program.isReportable_eraseDups, ih, ih]

theorem ContractReport.ofFlows?_eraseDups (p : Program) (id : ContractId) {flows flows' : Flows}
    (h : SameFirsts flows.entries flows'.entries) :
    ofFlows? p.eraseDups id flows true = ofFlows? p id flows' true := by
  have hmessage : messageOf p.eraseDups = messageOf p := by
    funext entries
    rw [messageOf, messageOf, funext (Entry.fragments_eraseDups p)]
  have hname : ((p.eraseDups.contractAt? id).map (·.name)).getD ""
      = ((p.contractAt? id).map (·.name)).getD "" := by
    rw [Program.contractAt?_eraseDups, Option.map_map]
    rfl
  rw [ofFlows?, ofFlows?, keep_eraseDups, keep_true_congr h, hmessage, hname]

namespace Detector

/-- **Repetitions.** Where each node stands once in a report, removing all repetitions
from the lists of a program leaves the report on every contract as it is. -/
theorem reportOn_eraseDups (d : Detector) (p : Program) (influence : Influence) (c : ContractId) :
    reportOn { d with oncePerNode := true } p.eraseDups influence c
      = reportOn { d with oncePerNode := true } p influence c := by
  rw [reportOn, reportOn, Program.exemption?_eraseDups, Program.contractAt?_eraseDups]
  cases p.contractAt? c with
  | none => rfl
  | some contract =>
    cases p.exemption? c with
    | some reason => rfl
    | none =>
      dsimp only [Option.map_some]
      exact ContractReport.ofFlows?_eraseDups p c
        ((analysis d p influence).entries_eraseDups contract.functions)

end Detector

end PriceTaint
