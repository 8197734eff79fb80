/-
Footprints against walks.

The walk through the calls of a function and the footprints of its nodes look for the same
thing, one for the function as a whole and one for each statement. They do so in loops of
their own, and nothing but a theorem keeps the cases of the one in step with those of the
other. They agree: put one after the other, the calls in the footprints are what the walk
finds, in its order and as often as it finds them. The walk needs one more level than the
footprints, which start inside the function already, and does not stop at snapshots, which
leave no footprint.

Whatever stands in a footprint is a price read in its own right, at whatever depth it was
found. That a returning node looks at its reads a second time is therefore of no effect,
and nothing about the influence between variables enters there.
-/
import Mathlib.Data.List.Flatten
import PriceTaint.Proofs.Taint.Flow

set_option autoImplicit false

namespace PriceTaint

/-! ## The calls of a footprint -/

/-- The call that a read is, unless it is a built-in. -/
def PriceRead.call? : PriceRead → Option CallId
  | .call id => some id
  | .builtin _ => none

/-- The calls among the reads of a footprint. -/
def Footprint.callIds (print : Footprint) : List CallId := print.reads.filterMap PriceRead.call?

namespace Lens

instance (p : Program) (n : Node) : Decidable (SnapshotTaken p n) :=
  decidable_of_iff _ (takesSnapshot_iff p n)

variable (lens : Lens) (p : Program) (depth : Nat)

theorem filterMap_call?_nativeReads (n : Node) :
    (lens.nativeReads n).filterMap PriceRead.call? = [] := by
  rw [List.filterMap_eq_nil_iff]
  intro read hread
  obtain ⟨-, rfl, -⟩ := (lens.mem_nativeReads_iff n read).mp hread
  rfl

/-- A node that takes no snapshot leaves the reads behind each of its calls. -/
theorem callIds_footprint {n : Node} (h : ¬ SnapshotTaken p n) :
    (lens.footprint p depth n).callIds
      = n.calls.flatMap (lens.readsAt p (lens.callReads p depth)) := by
  have hcall : PriceRead.call? ∘ PriceRead.call = some := rfl
  rw [footprint_eq, if_neg (mt (takesSnapshot_iff p n).mp h), Footprint.callIds, List.filterMap_append,
    filterMap_call?_nativeReads, List.append_nil, List.filterMap_map, hcall, List.filterMap_some]

/-- The walk from a function, node by node. -/
theorem callReads_succ_eq_flatMap_bodyOf (f : FunctionId) :
    lens.callReads p (depth + 1) f
      = (p.bodyOf f).flatMap fun e =>
          e.2.calls.flatMap (lens.readsAt p (lens.callReads p depth)) := by
  rw [callReads_succ, Program.callsOf, List.flatMap_assoc]

/-- Over nodes that take no snapshot, the footprints hold what is behind the calls. -/
theorem flatMap_callIds_footprint {body : List (NodeId × Node)}
    (h : ∀ e ∈ body, ¬ SnapshotTaken p e.2) :
    (body.flatMap fun e => (lens.footprint p depth e.2).callIds)
      = body.flatMap fun e => e.2.calls.flatMap (lens.readsAt p (lens.callReads p depth)) :=
  List.flatMap_congr fun e he => lens.callIds_footprint p depth (h e he)

/-- **Footprints and the walk agree.** If no node of a function takes a snapshot, the calls
in the footprints of its nodes, one node after the other, are what the walk from the
function finds with one more level, as often and in the same order. In any case those of
the nodes without a snapshot are a part of it, in the same order. -/
theorem footprints_agree_with_callReads (f : FunctionId) :
    ((∀ e ∈ p.bodyOf f, ¬ SnapshotTaken p e.2) →
      ((p.bodyOf f).flatMap fun e => (lens.footprint p depth e.2).callIds)
        = lens.callReads p (depth + 1) f)
      ∧ (((p.bodyOf f).filter fun e => ¬ SnapshotTaken p e.2).flatMap fun e =>
          (lens.footprint p depth e.2).callIds).Sublist (lens.callReads p (depth + 1) f) := by
  rw [callReads_succ_eq_flatMap_bodyOf]
  constructor
  · intro h
    exact lens.flatMap_callIds_footprint p depth h
  · have hkept : ∀ e ∈ (p.bodyOf f).filter fun e => ¬ SnapshotTaken p e.2,
        ¬ SnapshotTaken p e.2 := by
      intro e he
      exact of_decide_eq_true (List.mem_filter.mp he).2
    rw [lens.flatMap_callIds_footprint p depth hkept]
    exact List.filter_sublist.flatMap _

/-- A treasury whose worth is what it holds. The holdings are asked for twice in the pair and
once under its own address; the second time in the pair, the balance is kept for a later
difference. -/
def treasury : Program where
  functions := #[⟨"worth", "worth()", .function, ⟨0⟩, [⟨0⟩], []⟩,
    ⟨"holdings", "holdings()", .function, ⟨0⟩, [⟨1⟩, ⟨2⟩], []⟩]
  nodes := #[
    { owner := ⟨0⟩, shape := .ret, calls := [⟨0⟩], willReturn := true,
      internalCalls := [.builtin "balance(address)"], text := "return holdings()" },
    { owner := ⟨1⟩, shape := .assignment, calls := [⟨1⟩, ⟨2⟩], written := [⟨0⟩] },
    { owner := ⟨1⟩, shape := .assignment, calls := [⟨1⟩], written := [⟨1⟩] }]
  calls := #[
    { callee := .resolved (.function ⟨1⟩), text := "holdings()" },
    { callee := .member "balanceOf", arguments := [{ text := "pair" }],
      text := "token.balanceOf(pair)" },
    { callee := .member "balanceOf", arguments := [{ text := "address(this)" }],
      text := "token.balanceOf(address(this))" }]
  vars := #[{ name := "held", storage := .local }, { name := "balanceBefore", storage := .local }]

/-- In `worth` nothing is a snapshot, and its one footprint is the whole walk. In `holdings`
the walk goes through the snapshot too, and finds one read more than the footprints. -/
theorem footprints_agree_with_callReads_treasury :
    (∀ e ∈ treasury.bodyOf ⟨0⟩, ¬ SnapshotTaken treasury e.2)
      ∧ ((treasury.bodyOf ⟨0⟩).flatMap fun e =>
          (returnedValues.footprint treasury 1 e.2).callIds)
        = returnedValues.callReads treasury 2 ⟨0⟩
      ∧ returnedValues.callReads treasury 2 ⟨0⟩ = [⟨1⟩, ⟨1⟩]
      ∧ (((treasury.bodyOf ⟨1⟩).filter fun e => ¬ SnapshotTaken treasury e.2).flatMap fun e =>
          (returnedValues.footprint treasury 1 e.2).callIds).Sublist
        (returnedValues.callReads treasury 2 ⟨1⟩)
      ∧ (((treasury.bodyOf ⟨1⟩).filter fun e => ¬ SnapshotTaken treasury e.2).flatMap fun e =>
          (returnedValues.footprint treasury 1 e.2).callIds) = [⟨1⟩]
      ∧ returnedValues.callReads treasury 2 ⟨1⟩ = [⟨1⟩, ⟨1⟩] := by
  have hplain : ∀ e ∈ treasury.bodyOf ⟨0⟩, ¬ SnapshotTaken treasury e.2 := by decide
  exact ⟨hplain, (footprints_agree_with_callReads returnedValues treasury 1 ⟨0⟩).1 hplain,
    by decide, (footprints_agree_with_callReads returnedValues treasury 1 ⟨1⟩).2, by decide,
    by decide⟩

/-! ## Every read is genuine -/

/-- The read is what it is taken for: the built-in balance where the lens counts it and the
node does not mention the contract's own address, or a call of the program that goes to a
body or to a member by one of the names, is admitted, and does not ask for the contract's
own holdings. -/
def Genuine (n : Node) : PriceRead → Prop
  | .builtin name => name = "balance(address)" ∧ lens.nativeBalance = true
      ∧ ¬ Text.Contained "address(this)" n.text
  | .call id => ∃ c, p.callAt? id = some c ∧ p.dispatch c ≠ .unseen
      ∧ p.callMatches c lens.reads = true ∧ lens.admits p c = true
      ∧ ∀ a, c.arguments = [a] → a.text ≠ "address(this)"

/-- A question about the contract's own holdings is never admitted. -/
theorem text_ne_selfAddress_of_admits {c : Call} (h : lens.admits p c = true) (a : Argument)
    (harguments : c.arguments = [a]) : a.text ≠ "address(this)" := by
  intro htext
  have hown : c.readsOwnBalance = true := by
    rw [Call.readsOwnBalance, harguments]
    exact beq_iff_eq.mpr htext
  rw [admits, if_pos hown] at h
  exact absurd h Bool.false_ne_true

theorem genuine_of_mem_footprint {n : Node} {read : PriceRead}
    (h : read ∈ (lens.footprint p depth n).reads) : lens.Genuine p n read := by
  obtain ⟨-, hmakes⟩ := (lens.mem_footprint_reads_iff p depth n read).mp h
  cases read with
  | builtin name =>
    obtain ⟨hnative, hname, -, hself⟩ := hmakes
    exact ⟨hname, hnative, hself⟩
  | call id =>
    -- the chain by which the call was found does not matter, only where it ends
    obtain ⟨k, -, -, hread⟩ := hmakes
    obtain ⟨c, hcall, hseen, hmatch, hadmit⟩ := (lens.isRead_iff p id).mp hread
    exact ⟨c, hcall, hseen, hmatch, hadmit, lens.text_ne_selfAddress_of_admits p hadmit⟩

end Lens

namespace Analysis

/-- The node returns the outcome of its calls, and guards nothing. -/
def ReturnsCalls (n : Node) : Prop :=
  n.willReturn = true ∧ ¬ Text.Contained "require" n.text ∧ n.calls ≠ []

instance : DecidablePred ReturnsCalls := fun n => decidable_of_iff _ (returnsCalls_iff n)

/-- The return flows, with all reads of the nodes that return the outcome of calls. -/
theorem returnReads_eq_flatMap_filter (a : Analysis) (f : FunctionId) :
    a.returnReads f
      = ((a.program.bodyOf f).filter fun e => ReturnsCalls e.2).flatMap fun e =>
          (a.footprint e.2).reads.map fun read => (read, e.1) := by
  have hsame : ∀ e : NodeId × Node, returnsCalls e.2 = decide (ReturnsCalls e.2) := by
    intro e
    rw [Bool.eq_iff_iff, decide_eq_true_iff, returnsCalls_iff, ReturnsCalls]
  rw [returnReads_eq, ← List.flatMap_filter_eq, List.filter_congr fun e _ => hsame e]

/-- **Reads are genuine.** Whatever a footprint holds is a price read in its own right, so
the return flows of a function are all reads of its nodes that return the outcome of calls,
node by node, and no influence changes them. -/
theorem returnReads_keep_all (a : Analysis) :
    (∀ n, ∀ read ∈ (a.footprint n).reads, a.lens.Genuine a.program n read)
      ∧ ∀ f, a.returnReads f
          = (((a.program.bodyOf f).filter fun e => ReturnsCalls e.2).flatMap fun e =>
            (a.footprint e.2).reads.map fun read => (read, e.1))
        ∧ ∀ influence, returnReads { a with influence := influence } f = a.returnReads f := by
  refine ⟨fun n read hread => a.lens.genuine_of_mem_footprint a.program a.depth hread, ?_⟩
  intro f
  refine ⟨a.returnReads_eq_flatMap_filter f, ?_⟩
  intro influence
  rw [returnReads_eq_flatMap_filter, returnReads_eq_flatMap_filter]
  rfl

/-- What `worth` returns, whatever the influence: the balance of the pair, found twice behind
a call, and the built-in balance. What the treasury holds itself is in no footprint. -/
theorem returnReads_keep_all_treasury :
    (∀ influence, returnReads ⟨Lens.treasury, .returnedValues, influence, 1⟩ ⟨0⟩
        = [(.call ⟨1⟩, ⟨0⟩), (.call ⟨1⟩, ⟨0⟩), (.builtin "balance(address)", ⟨0⟩)])
      ∧ ∀ n, .call ⟨2⟩
          ∉ (footprint ⟨Lens.treasury, .returnedValues, fun _ _ _ => false, 1⟩ n).reads := by
  obtain ⟨hgenuine, hreturned⟩ :=
    returnReads_keep_all ⟨Lens.treasury, .returnedValues, fun _ _ _ => false, 1⟩
  constructor
  · intro influence
    exact ((hreturned ⟨0⟩).2 influence).trans (by decide)
  · intro n hread
    obtain ⟨c, hcall, -, -, -, hown⟩ := hgenuine n (.call ⟨2⟩) hread
    cases hcall
    exact hown _ rfl rfl

end Analysis

end PriceTaint
