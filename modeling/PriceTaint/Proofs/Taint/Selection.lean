/-
Which flows a report keeps.

A report goes through the flows of a contract once, dependent flows first. It passes over
nodes that cannot be reported and, unless every flow is wanted, over nodes that it has an
entry for already. What is left can be said without the walk: of the entries at reportable
nodes, all of them, or those before which no other has the same node.

The step of the argument is what one more flow at the end adds; the rest is by induction
from the end of the list, since whether an entry is kept depends on those before it only.
-/
import Mathlib.Data.List.Induction
import Mathlib.Data.List.Nodup
import PriceTaint.Proofs.Sequences
import PriceTaint.Proofs.Taint.Repetition

set_option autoImplicit false

namespace PriceTaint

/-- The node is there and emits no event. -/
def Program.Reportable (p : Program) (id : NodeId) : Prop :=
  ∃ n, p.nodeAt? id = some n ∧ ∀ name, .eventCall name ∉ n.operations

instance (p : Program) : DecidablePred p.Reportable :=
  fun id => decidable_of_iff _ (p.isReportable_iff id)

theorem Program.decide_reportable (p : Program) (id : NodeId) :
    decide (p.Reportable id) = p.isReportable id := by
  rw [Bool.eq_iff_iff, decide_eq_true_iff, p.isReportable_iff, Reportable]

namespace Entry

/-! ## The first entry at each node -/

/-- The entries before which no other has the same node. -/
def firstAtNode (entries : List Entry) : List Entry :=
  (entries.zipIdx.filter fun e =>
    !((entries.take e.2).map Entry.node).contains e.1.node).map Prod.fst

/-- One more entry at the end is a first unless its node has occurred. -/
theorem firstAtNode_concat (entries : List Entry) (e : Entry) :
    firstAtNode (entries ++ [e])
      = firstAtNode entries
        ++ if (entries.map Entry.node).contains e.node then [] else [e] := by
  -- what lies before an entry of the list is the same with and without `e` at the end
  have hbefore : ∀ x ∈ entries.zipIdx, (entries ++ [e]).take x.2 = entries.take x.2 := by
    intro x hx
    exact List.take_append_of_le_length (Nat.le_of_lt (List.snd_lt_of_mem_zipIdx hx))
  have hlast : (entries ++ [e]).take entries.length = entries := List.take_left
  rw [firstAtNode, List.zipIdx_append, List.filter_append, List.map_append]
  congr 1
  · rw [firstAtNode]
    congr 1
    exact List.filter_congr fun x hx => by rw [hbefore x hx]
  · rw [Nat.zero_add, List.zipIdx_singleton, List.filter_singleton]
    dsimp only
    rw [hlast]
    cases (entries.map Entry.node).contains e.node <;> rfl

/-- The nodes of the firsts are the nodes, each once. -/
theorem map_node_firstAtNode (entries : List Entry) :
    (firstAtNode entries).map Entry.node = (entries.map Entry.node).eraseDups := by
  induction entries using List.reverseRecOn with
  | nil => rfl
  | append_singleton entries e ih =>
    rw [firstAtNode_concat, List.map_append, ih, List.map_append, List.map_singleton,
      List.eraseDups_concat]
    cases (entries.map Entry.node).contains e.node <;> rfl

/-- Of two lists, the firsts are those of the one and then those of the other at nodes that
the one does not have. -/
theorem firstAtNode_append (entries entries' : List Entry) :
    firstAtNode (entries ++ entries')
      = firstAtNode entries
        ++ (firstAtNode entries').filter fun e => !(entries.map Entry.node).contains e.node := by
  induction entries' using List.reverseRecOn with
  | nil => simp [firstAtNode]
  | append_singleton entries' e ih =>
    rw [← List.append_assoc, firstAtNode_concat, ih, firstAtNode_concat, List.filter_append,
      List.append_assoc, List.map_append]
    congr 2
    rw [List.contains_append]
    cases (entries'.map Entry.node).contains e.node with
    | true => rw [Bool.or_true]; rfl
    | false =>
      rw [Bool.or_false, if_neg Bool.false_ne_true, List.filter_singleton]
      cases (entries.map Entry.node).contains e.node <;> rfl

/-- Where no node occurs twice, every entry is a first. -/
theorem firstAtNode_eq_self {entries : List Entry} (h : (entries.map Entry.node).Nodup) :
    firstAtNode entries = entries := by
  induction entries using List.reverseRecOn with
  | nil => rfl
  | append_singleton entries e ih =>
    rw [List.map_append, List.nodup_append] at h
    obtain ⟨hfront, -, hnew⟩ := h
    have hold : e.node ∉ entries.map Entry.node := by
      intro hmem
      exact hnew e.node hmem e.node (List.mem_singleton_self _) rfl
    rw [firstAtNode_concat, ih hfront, if_neg (by simpa using hold)]

theorem firstAtNode_sublist (entries : List Entry) : (firstAtNode entries).Sublist entries := by
  have hsublist : (firstAtNode entries).Sublist (entries.zipIdx.map Prod.fst) :=
    List.filter_sublist.map Prod.fst
  rwa [List.zipIdx_map_fst] at hsublist

theorem firstAtNode_eq_nil_iff (entries : List Entry) :
    firstAtNode entries = [] ↔ entries = [] := by
  constructor
  · intro hnil
    have hnodes := map_node_firstAtNode entries
    rw [hnil, List.map_nil] at hnodes
    rw [List.eq_nil_iff_forall_not_mem]
    intro e he
    have hmem := List.mem_eraseDups.mpr (List.mem_map_of_mem (f := Entry.node) he)
    rw [← hnodes] at hmem
    exact List.not_mem_nil hmem
  · rintro rfl
    rfl

end Entry

namespace ContractReport

/-! ## What is kept -/

theorem isNew_iff (p : Program) (seen : List NodeId) (e : Entry) :
    isNew p seen e = true ↔ e.node ∉ seen ∧ p.Reportable e.node := by
  rw [isNew, Bool.and_eq_true, ← p.decide_reportable, decide_eq_true_iff]
  simp

/-- One more entry at the end is kept if it can be reported and its node has not occurred,
neither among those seen nor in an entry before it. -/
theorem keep_true_concat (p : Program) (seen : List NodeId) (entries : List Entry) (e : Entry) :
    keep p true seen (entries ++ [e])
      = keep p true seen entries
        ++ if isNew p (entries.map Entry.node ++ seen) e then [e] else [] := by
  induction entries generalizing seen with
  | nil =>
    by_cases hnew : isNew p seen e = true
    · rw [List.nil_append, keep_cons_of_isNew hnew, List.map_nil, List.nil_append, if_pos hnew]
      rfl
    · rw [List.nil_append, keep_cons_of_not_isNew (Bool.not_eq_true _ ▸ hnew), List.map_nil,
        List.nil_append, if_neg hnew]
      rfl
  | cons x entries ih =>
    rw [List.cons_append]
    by_cases hnew : isNew p seen x = true
    · have hsame : isNew p (entries.map Entry.node ++ x.node :: seen) e
          = isNew p ((x :: entries).map Entry.node ++ seen) e := by
        rw [Bool.eq_iff_iff, isNew_iff, isNew_iff]
        simp only [List.map_cons, List.cons_append, List.mem_append, List.mem_cons, or_left_comm]
      rw [keep_cons_of_isNew hnew, keep_cons_of_isNew hnew, ih, hsame, List.cons_append]
    · -- an entry that is not new hides none: another one at its node is not new either
      have hsame : isNew p (entries.map Entry.node ++ seen) e
          = isNew p ((x :: entries).map Entry.node ++ seen) e := by
        rw [Bool.eq_iff_iff, isNew_iff, isNew_iff, List.map_cons, List.cons_append, List.mem_cons,
          not_or]
        constructor
        · rintro ⟨hout, hrep⟩
          refine ⟨⟨?_, hout⟩, hrep⟩
          intro heq
          rw [heq] at hout hrep
          exact hnew ((isNew_iff p seen x).mpr ⟨mt (List.mem_append_right _) hout, hrep⟩)
        · rintro ⟨⟨-, hout⟩, hrep⟩
          exact ⟨hout, hrep⟩
      rw [keep_cons_of_not_isNew (Bool.not_eq_true _ ▸ hnew),
        keep_cons_of_not_isNew (Bool.not_eq_true _ ▸ hnew), ih, hsame]

/-- Where each node may stand once, the firsts among the reportable entries are kept. -/
theorem keep_true_eq_firstAtNode (p : Program) (entries : List Entry) :
    keep p true [] entries = Entry.firstAtNode (entries.filter fun e => p.Reportable e.node) := by
  induction entries using List.reverseRecOn with
  | nil => rfl
  | append_singleton entries e ih =>
    rw [keep_true_concat, ih, List.append_nil, List.filter_append, List.filter_singleton]
    by_cases hrep : p.Reportable e.node
    · -- a node that can be reported has occurred exactly if it has in a reportable entry
      have hoccurred :
          ((entries.filter fun e => p.Reportable e.node).map Entry.node).contains e.node
            = !isNew p (entries.map Entry.node) e := by
        rw [Bool.eq_iff_iff, List.contains_iff_mem, Bool.not_eq_true', ← Bool.not_eq_true,
          isNew_iff]
        simp only [List.mem_map, List.mem_filter, decide_eq_true_iff, hrep, and_true, not_not]
        constructor
        · rintro ⟨x, ⟨hx, -⟩, hnode⟩
          exact ⟨x, hx, hnode⟩
        · rintro ⟨x, hx, hnode⟩
          exact ⟨x, ⟨hx, hnode ▸ hrep⟩, hnode⟩
      rw [decide_eq_true hrep, cond_true, Entry.firstAtNode_concat, hoccurred]
      cases isNew p (entries.map Entry.node) e <;> rfl
    · have hnew : isNew p (entries.map Entry.node) e ≠ true := fun hnew =>
        hrep ((isNew_iff p _ e).mp hnew).2
      rw [decide_eq_false hrep, cond_false, if_neg hnew, List.append_nil, List.append_nil]

end ContractReport

namespace Flows

/-- The flows at reportable nodes as entries, dependent flows first. -/
def reportable (f : Flows) (p : Program) : List Entry :=
  (f.dependent.map Entry.dependent ++ f.returned.map Entry.returned).filter fun e =>
    p.Reportable e.node

/-- The reportable entries that a report keeps: all, or the first at each node. -/
def kept (f : Flows) (p : Program) (oncePerNode : Bool) : List Entry :=
  if oncePerNode then Entry.firstAtNode (f.reportable p) else f.reportable p

theorem keep_entries (f : Flows) (p : Program) (oncePerNode : Bool) :
    ContractReport.keep p oncePerNode [] f.entries = f.kept p oncePerNode := by
  cases oncePerNode with
  | true => exact ContractReport.keep_true_eq_firstAtNode p f.entries
  | false =>
    rw [ContractReport.keep_false]
    exact List.filter_congr fun e _ => (p.decide_reportable e.node).symm

theorem kept_sublist (f : Flows) (p : Program) (oncePerNode : Bool) :
    (f.kept p oncePerNode).Sublist (f.reportable p) := by
  cases oncePerNode with
  | true => exact Entry.firstAtNode_sublist _
  | false => exact List.Sublist.refl _

/-- As long as something can be reported, something is kept. -/
theorem kept_eq_nil_iff (f : Flows) (p : Program) (oncePerNode : Bool) :
    f.kept p oncePerNode = [] ↔ f.reportable p = [] := by
  cases oncePerNode with
  | true => exact Entry.firstAtNode_eq_nil_iff _
  | false => exact Iff.rfl

/-- Where each node may stand once, it does. -/
theorem nodup_nodes_kept (f : Flows) (p : Program) :
    ((f.kept p true).map Entry.node).Nodup := by
  rw [kept, if_pos rfl, Entry.map_node_firstAtNode]
  exact List.nodup_eraseDups _

/-- The first entry at a node with a dependent flow is a dependent flow. -/
theorem exists_dependent_mem_kept {f : Flows} {p : Program} {flow : DependentFlow}
    (hflow : flow ∈ f.dependent) (hrep : p.Reportable flow.node) :
    ∃ first ∈ f.dependent, first.node = flow.node ∧ .dependent first ∈ f.kept p true := by
  have hmem : Entry.dependent flow ∈ (f.dependent.map Entry.dependent).filter fun e =>
      p.Reportable e.node :=
    List.mem_filter.mpr ⟨List.mem_map_of_mem hflow, decide_eq_true hrep⟩
  have hnode : flow.node ∈ ((f.dependent.map Entry.dependent).filter fun e =>
      p.Reportable e.node).map Entry.node := List.mem_map_of_mem hmem
  rw [← List.mem_eraseDups, ← Entry.map_node_firstAtNode, List.mem_map] at hnode
  obtain ⟨e, he, heq⟩ := hnode
  obtain ⟨first, hfirst, rfl⟩ :=
    List.mem_map.mp (List.mem_filter.mp ((Entry.firstAtNode_sublist _).mem he)).1
  refine ⟨first, hfirst, heq, ?_⟩
  -- dependent flows come first, and what is first among them is first at all
  rw [kept, if_pos rfl, reportable, List.filter_append, Entry.firstAtNode_append]
  exact List.mem_append_left _ he

end Flows

namespace ContractReport

/-- The report with the given entries. -/
def withEntries (p : Program) (id : ContractId) (entries : List Entry) : ContractReport where
  contract := id
  contractName := ((p.contractAt? id).map (·.name)).getD ""
  message := messageOf p entries
  entries := entries

theorem ofFlows?_eq_none_iff (p : Program) (id : ContractId) (flows : Flows)
    (oncePerNode : Bool) : ofFlows? p id flows oncePerNode = none ↔ flows.reportable p = [] := by
  rw [ofFlows?, flows.keep_entries, ← flows.kept_eq_nil_iff p oncePerNode]
  cases flows.kept p oncePerNode with
  | nil => simp
  | cons e entries => simp

/-- A report is made as soon as a flow can be reported, and has what is kept. -/
theorem ofFlows?_eq_some_iff (p : Program) (id : ContractId) (flows : Flows) (oncePerNode : Bool)
    (r : ContractReport) :
    ofFlows? p id flows oncePerNode = some r
      ↔ flows.reportable p ≠ [] ∧ withEntries p id (flows.kept p oncePerNode) = r := by
  rw [ofFlows?, flows.keep_entries, ne_eq, ← flows.kept_eq_nil_iff p oncePerNode]
  cases flows.kept p oncePerNode with
  | nil => simp
  | cons e entries => simp [withEntries]

end ContractReport

/-! ## Reports of reports -/

/-- The flow of an entry that is dependent. -/
def Entry.dependent? : Entry → Option DependentFlow
  | .dependent flow => some flow
  | .returned _ => none

/-- The flow of an entry that is returned. -/
def Entry.returned? : Entry → Option ReturnFlow
  | .dependent _ => none
  | .returned flow => some flow

namespace Flows

/-- The flows of some entries, those of each kind in their order. -/
def ofEntries (entries : List Entry) : Flows :=
  ⟨entries.filterMap Entry.dependent?, entries.filterMap Entry.returned?⟩

/-- Of entries that stand as flows are listed, nothing gets lost or changes its place. -/
theorem entries_ofEntries {entries : List Entry} {flows : Flows}
    (h : entries.Sublist flows.entries) : (ofEntries entries).entries = entries := by
  rw [Flows.entries, List.sublist_append_iff] at h
  obtain ⟨front, back, rfl, hfront, hback⟩ := h
  obtain ⟨dependent, -, rfl⟩ := List.sublist_map_iff.mp hfront
  obtain ⟨returned, -, rfl⟩ := List.sublist_map_iff.mp hback
  have hdependent : Entry.dependent? ∘ Entry.dependent = some := rfl
  have hreturned : Entry.returned? ∘ Entry.returned = some := rfl
  have hneither : Entry.dependent? ∘ Entry.returned = fun _ => none := rfl
  have hneither' : Entry.returned? ∘ Entry.dependent = fun _ => none := rfl
  simp only [ofEntries, Flows.entries, List.filterMap_append, List.filterMap_map, hdependent,
    hreturned, hneither, hneither', List.filterMap_some, List.filterMap_none, List.append_nil,
    List.nil_append]

/-- Once each node has one entry, all of them are kept, however often this is repeated. -/
theorem kept_ofEntries_kept (f : Flows) (p : Program) (oncePerNode : Bool) :
    (ofEntries (f.kept p true)).reportable p = f.kept p true
      ∧ (ofEntries (f.kept p true)).kept p oncePerNode = f.kept p true := by
  have hsublist : (f.kept p true).Sublist f.entries :=
    (f.kept_sublist p true).trans List.filter_sublist
  have hreportable : (ofEntries (f.kept p true)).reportable p = f.kept p true := by
    have hall : ∀ e ∈ f.kept p true, decide (p.Reportable e.node) = true := by
      intro e he
      exact (List.mem_filter.mp ((f.kept_sublist p true).mem he)).2
    exact (congrArg _ (entries_ofEntries hsublist)).trans (List.filter_eq_self.mpr hall)
  refine ⟨hreportable, ?_⟩
  rw [kept, hreportable]
  cases oncePerNode with
  | true => exact Entry.firstAtNode_eq_self (f.nodup_nodes_kept p)
  | false => rfl

end Flows

namespace ContractReport

/-- **Selection.** There is a report unless no flow is at a reportable node. It has all
entries at such nodes or, where each node may stand once, those before which none has the
same node. Then the nodes are those of the full report, each once; the one entry at a node
with a dependent flow is dependent; and the entries, taken as flows again, give the same
report. -/
theorem ofFlows?_selects (p : Program) (c : ContractId) (flows : Flows) :
    (∀ oncePerNode, ofFlows? p c flows oncePerNode = none ↔ flows.reportable p = [])
      ∧ (∀ full, ofFlows? p c flows false = some full → full.entries = flows.reportable p)
      ∧ ∀ r, ofFlows? p c flows true = some r →
        r.entries = Entry.firstAtNode (flows.reportable p)
          ∧ r.nodes.Nodup
          ∧ (∀ full, ofFlows? p c flows false = some full → r.nodes = full.nodes.eraseDups)
          ∧ (∀ flow ∈ flows.dependent, p.Reportable flow.node →
              ∃ first ∈ flows.dependent,
                ∀ e, e ∈ r.entries ∧ e.node = flow.node ↔ e = .dependent first)
          ∧ ∀ oncePerNode, ofFlows? p c (Flows.ofEntries r.entries) oncePerNode = some r := by
  refine ⟨ofFlows?_eq_none_iff p c flows, ?_, ?_⟩
  · intro full hfull
    obtain ⟨-, rfl⟩ := (ofFlows?_eq_some_iff p c flows false full).mp hfull
    rfl
  · intro r hr
    obtain ⟨hsome, rfl⟩ := (ofFlows?_eq_some_iff p c flows true r).mp hr
    refine ⟨rfl, flows.nodup_nodes_kept p, ?_, ?_, ?_⟩
    · intro full hfull
      obtain ⟨-, rfl⟩ := (ofFlows?_eq_some_iff p c flows false full).mp hfull
      exact Entry.map_node_firstAtNode (flows.reportable p)
    · intro flow hflow hrep
      obtain ⟨first, hfirst, hnode, hmem⟩ := Flows.exists_dependent_mem_kept hflow hrep
      refine ⟨first, hfirst, fun e => ⟨?_, ?_⟩⟩
      · rintro ⟨he, heq⟩
        exact List.inj_on_of_nodup_map (flows.nodup_nodes_kept p) he hmem (heq.trans hnode.symm)
      · rintro rfl
        exact ⟨hmem, hnode⟩
    · intro oncePerNode
      obtain ⟨hreportable, hkept⟩ := flows.kept_ofEntries_kept p oncePerNode
      refine (ofFlows?_eq_some_iff p c _ oncePerNode _).mpr ⟨?_, congrArg _ hkept⟩
      exact mt (fun hnil => (flows.kept_eq_nil_iff p true).mp (hreportable.symm.trans hnil)) hsome

/-- Three statements, of which the second emits an event. -/
def market : Program where
  nodes := #[{ owner := ⟨0⟩ }, { owner := ⟨0⟩, operations := [.eventCall "Sync"] },
    { owner := ⟨0⟩ }]

/-- Flows at all statements of the market and at one that it does not have. The event comes
first, the first statement is at flows of both kinds, and the last at two of one kind. -/
def marketFlows : Flows where
  dependent := [⟨⟨0⟩, ⟨0⟩, ⟨1⟩, .call ⟨0⟩, ⟨1⟩⟩, ⟨⟨0⟩, ⟨0⟩, ⟨1⟩, .call ⟨1⟩, ⟨0⟩⟩,
    ⟨⟨0⟩, ⟨0⟩, ⟨1⟩, .call ⟨2⟩, ⟨9⟩⟩, ⟨⟨0⟩, ⟨0⟩, ⟨1⟩, .call ⟨3⟩, ⟨0⟩⟩]
  returned := [⟨⟨0⟩, .call ⟨4⟩, ⟨0⟩⟩, ⟨⟨0⟩, .call ⟨5⟩, ⟨2⟩⟩, ⟨⟨0⟩, .call ⟨6⟩, ⟨2⟩⟩]

/-- Five of the seven flows can be reported, and two of them are the first at their node. -/
theorem ofFlows?_selects_market :
    ∃ full r, ofFlows? market ⟨0⟩ marketFlows false = some full
      ∧ ofFlows? market ⟨0⟩ marketFlows true = some r
      ∧ full.nodes = [⟨0⟩, ⟨0⟩, ⟨0⟩, ⟨2⟩, ⟨2⟩]
      ∧ r.entries = [.dependent ⟨⟨0⟩, ⟨0⟩, ⟨1⟩, .call ⟨1⟩, ⟨0⟩⟩, .returned ⟨⟨0⟩, .call ⟨5⟩, ⟨2⟩⟩]
      ∧ r.nodes = full.nodes.eraseDups
      ∧ ∀ oncePerNode, ofFlows? market ⟨0⟩ (Flows.ofEntries r.entries) oncePerNode = some r := by
  obtain ⟨hnone, hentries, honce⟩ := ofFlows?_selects market ⟨0⟩ marketFlows
  have hsome : marketFlows.reportable market ≠ [] := by decide
  obtain ⟨full, hfull⟩ := Option.ne_none_iff_exists'.mp (mt (hnone false).mp hsome)
  obtain ⟨r, hr⟩ := Option.ne_none_iff_exists'.mp (mt (hnone true).mp hsome)
  obtain ⟨hfirst, -, hnodes, -, hagain⟩ := honce r hr
  refine ⟨full, r, hfull, hr, ?_, hfirst.trans (by decide), hnodes full hfull, hagain⟩
  rw [nodes, hentries full hfull]
  decide

end ContractReport

end PriceTaint
