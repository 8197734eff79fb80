/-
Where the two lenses see the same.

The lens on returned values knows more names than the lens on moved amounts, puts a condition
on reads of a balance, and counts the built-in balance. In a program without a call that goes
by the name of a balance the first two differences have nothing to apply to. The names matter
twice on a walk: they tell what is a read, and they tell what is not entered. So it has to be
shown for every call that both lenses give it the same name or none, and only then, depth by
depth, that they find the same. The third difference stays, and shows at the end of a
footprint.
-/
import PriceTaint.Proofs.Taint.Detection
import PriceTaint.Proofs.Taint.Footprints

set_option autoImplicit false

namespace PriceTaint

/-! ## More names -/

/-- A call that goes by a name of a spot price or a balance goes by one of a spot price, or by
one of a balance. -/
theorem Program.callMatches_pricesAndBalances (p : Program) (c : Call) :
    p.callMatches c .pricesAndBalances
      = (p.callMatches c .spotPrices || p.callMatches c .balances) := by
  have hnames : NameSet.pricesAndBalances.names
      = NameSet.spotPrices.names ++ NameSet.balances.names := rfl
  rw [Bool.eq_iff_iff, Bool.or_eq_true, callMatches_iff, callMatches_iff, callMatches_iff, hnames]
  simp only [List.mem_append, or_and_right, exists_or]

namespace Lens

/-! ## Lenses that decide alike -/

/-- On the calls of the program, both lenses know the same by name, and admit the same of
those. -/
def Agree (lens lens' : Lens) (p : Program) : Prop :=
  ∀ id c, p.callAt? id = some c → p.callMatches c lens'.reads = p.callMatches c lens.reads
    ∧ (p.callMatches c lens.reads = true → lens'.admits p c = lens.admits p c)

section Agree

variable {lens lens' : Lens} {p : Program} (h : Agree lens lens' p)

include h

/-- A call leads both lenses to the same reads, if they find the same inside functions. -/
theorem Agree.readsAt_eq {inside inside' : FunctionId → List CallId}
    (hinside : ∀ g, inside' g = inside g) (id : CallId) :
    lens'.readsAt p inside' id = lens.readsAt p inside id := by
  unfold readsAt
  cases hc : p.callAt? id with
  | none => rfl
  | some c =>
    obtain ⟨hmatch, hadmit⟩ := h id c hc
    dsimp only
    rw [hmatch]
    cases hm : p.callMatches c lens.reads with
    | true => simp only [if_true, hadmit hm]
    | false => simp only [Bool.false_eq_true, if_false, hinside, Bool.false_and]

/-- Both lenses find the same behind the calls of a function, at any depth. -/
theorem Agree.callReads_eq (depth : Nat) (f : FunctionId) :
    lens'.callReads p depth f = lens.callReads p depth f := by
  induction depth generalizing f with
  | zero => rfl
  | succ depth ih =>
    rw [callReads_succ, callReads_succ]
    exact List.flatMap_congr fun id _ => h.readsAt_eq ih id

/-- Both lenses see the same calls in a footprint. -/
theorem Agree.callIds_footprint_eq (depth : Nat) (n : Node) :
    (lens'.footprint p depth n).callIds = (lens.footprint p depth n).callIds := by
  by_cases hsnap : SnapshotTaken p n
  · rw [footprint_eq, footprint_eq, if_pos ((takesSnapshot_iff p n).mpr hsnap),
      if_pos ((takesSnapshot_iff p n).mpr hsnap)]
  · rw [callIds_footprint lens' p depth hsnap, callIds_footprint lens p depth hsnap]
    exact List.flatMap_congr fun id _ => h.readsAt_eq (h.callReads_eq depth) id

end Agree

/-! ## What a footprint is made of -/

variable (lens : Lens) (p : Program) (depth : Nat)

/-- The built-in reads of a node are all the same one. -/
theorem nativeReads_eq_replicate (n : Node) :
    lens.nativeReads n
      = List.replicate (lens.nativeReads n).length (.builtin "balance(address)") := by
  rw [List.eq_replicate_iff]
  refine ⟨rfl, fun read hread => ?_⟩
  obtain ⟨-, hname, -⟩ := (lens.mem_nativeReads_iff n read).mp hread
  exact hname

/-- A footprint has its calls first, and then the built-in balance some number of times, which
is zero where the lens does not count it. -/
theorem exists_footprint_reads_eq (n : Node) :
    ∃ k, (lens.footprint p depth n).reads
        = (lens.footprint p depth n).callIds.map .call
          ++ List.replicate k (.builtin "balance(address)")
      ∧ (lens.nativeBalance = false → k = 0) := by
  by_cases hsnap : SnapshotTaken p n
  · refine ⟨0, ?_, fun _ => rfl⟩
    rw [footprint_eq, if_pos ((takesSnapshot_iff p n).mpr hsnap)]
    rfl
  · refine ⟨(lens.nativeReads n).length, ?_, ?_⟩
    · rw [callIds_footprint lens p depth hsnap, ← nativeReads_eq_replicate, footprint_eq,
        if_neg (mt (takesSnapshot_iff p n).mp hsnap)]
    · intro hnative
      rw [nativeReads, hnative]
      rfl

/-! ## The two lenses -/

/-- Where no call goes by the name of a balance, the two lenses decide alike. -/
theorem agree_of_no_balances {p : Program}
    (h : ∀ id c, p.callAt? id = some c → p.callMatches c .balances = false) :
    Agree movedAmounts returnedValues p := by
  intro id c hc
  have hnone := h id c hc
  constructor
  · show p.callMatches c .pricesAndBalances = p.callMatches c .spotPrices
    rw [p.callMatches_pricesAndBalances, hnone, Bool.or_false]
  · intro _
    rw [Bool.eq_iff_iff, admits_returnedValues_iff, admits_movedAmounts_iff]
    simp [hnone]

/-- **The lenses agree on spot prices.** In a program without a call that goes by the name of a
balance, both lenses find the same reads behind the calls of a function, in the same order, at
any depth. Of a node they see the same assignments and the same calls, in the same order; the
lens on returned values may see built-in balances besides, after all the calls. -/
theorem lenses_agree_without_balances (p : Program)
    (h : ∀ id c, p.callAt? id = some c → p.callMatches c .balances = false) (depth : Nat) :
    (∀ f, returnedValues.callReads p depth f = movedAmounts.callReads p depth f)
      ∧ ∀ n, (returnedValues.footprint p depth n).written
            = (movedAmounts.footprint p depth n).written
          ∧ (returnedValues.footprint p depth n).callIds
            = (movedAmounts.footprint p depth n).callIds
          ∧ ∃ k, (returnedValues.footprint p depth n).reads
            = (movedAmounts.footprint p depth n).reads
              ++ List.replicate k (.builtin "balance(address)") := by
  have hagree := agree_of_no_balances h
  refine ⟨hagree.callReads_eq depth, fun n => ?_⟩
  have hcalls := hagree.callIds_footprint_eq depth n
  refine ⟨footprint_written_eq returnedValues movedAmounts p depth depth n, hcalls, ?_⟩
  obtain ⟨k, hreturned, -⟩ := exists_footprint_reads_eq returnedValues p depth n
  obtain ⟨k', hmoved, hzero⟩ := exists_footprint_reads_eq movedAmounts p depth n
  obtain rfl : k' = 0 := hzero rfl
  refine ⟨k, ?_⟩
  rw [hreturned, hmoved, hcalls, List.replicate_zero, List.append_nil]

/-- A statement that adds up reserves, a quote and the built-in balance of a pair. -/
def appraisal : Node where
  owner := ⟨0⟩
  shape := .assignment
  calls := [⟨0⟩, ⟨2⟩]
  internalCalls := [.builtin "balance(address)"]
  written := [⟨0⟩]
  text := "total = reserves() + getAmountOut(1) + pair.balance"

/-- The program of the statement. The reserves are read by a function that calls itself again,
and the quote is a function of the program that reads the reserves in turn. -/
def appraiser : Program where
  functions := #[⟨"worth", "worth()", .function, ⟨0⟩, [⟨0⟩], []⟩,
    ⟨"reserves", "reserves()", .function, ⟨0⟩, [⟨1⟩], []⟩,
    ⟨"getAmountOut", "getAmountOut(uint256)", .function, ⟨0⟩, [⟨1⟩], []⟩]
  nodes := #[appraisal, { owner := ⟨1⟩, shape := .ret, calls := [⟨1⟩, ⟨0⟩], willReturn := true }]
  calls := #[
    { callee := .resolved (.function ⟨1⟩), text := "reserves()" },
    { callee := .member "getReserves", text := "pair.getReserves()" },
    { callee := .resolved (.function ⟨2⟩), arguments := [{ text := "1" }],
      text := "getAmountOut(1)" }]
  vars := #[{ name := "total", storage := .local }]

/-- Both lenses find the reserves twice on the way around and the quote, which neither enters,
and one of them the built-in balance after that. -/
theorem lenses_agree_without_balances_appraiser :
    (∀ id c, appraiser.callAt? id = some c → appraiser.callMatches c .balances = false)
      ∧ returnedValues.callReads appraiser 3 ⟨0⟩ = movedAmounts.callReads appraiser 3 ⟨0⟩
      ∧ movedAmounts.callReads appraiser 3 ⟨0⟩ = [⟨1⟩, ⟨1⟩, ⟨2⟩]
      ∧ (returnedValues.footprint appraiser 2 appraisal).written
        = (movedAmounts.footprint appraiser 2 appraisal).written
      ∧ (returnedValues.footprint appraiser 2 appraisal).callIds
        = (movedAmounts.footprint appraiser 2 appraisal).callIds
      ∧ (movedAmounts.footprint appraiser 2 appraisal).reads
        = [.call ⟨1⟩, .call ⟨1⟩, .call ⟨2⟩]
      ∧ (returnedValues.footprint appraiser 2 appraisal).reads
        = [.call ⟨1⟩, .call ⟨1⟩, .call ⟨2⟩, .builtin "balance(address)"] := by
  have hall : ∀ c ∈ appraiser.calls, appraiser.callMatches c .balances = false := by decide
  have hnone : ∀ id c, appraiser.callAt? id = some c →
      appraiser.callMatches c .balances = false := by
    intro id c hc
    exact hall c (Array.mem_of_getElem? hc)
  obtain ⟨hwalk, -⟩ := lenses_agree_without_balances appraiser hnone 3
  obtain ⟨-, hprint⟩ := lenses_agree_without_balances appraiser hnone 2
  obtain ⟨hwritten, hcalls, -⟩ := hprint appraisal
  exact ⟨hnone, hwalk ⟨0⟩, by decide, hwritten, hcalls, by decide, by decide⟩

end Lens

end PriceTaint
