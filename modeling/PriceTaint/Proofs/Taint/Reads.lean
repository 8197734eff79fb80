/-
What the walk through calls finds.

Functions and nodes are gone through by two loops, each with cases of its own and with
what has been found handed on from turn to turn. What they have found when they end can
be said without the handing on: `readsAt` is what one call adds, by either loop, and both
loops add this for one call after the other.

The walk is then described by chains: a chain starts at a call of a given list, follows
calls that go to a function whose body is at hand and that are no reads
themselves, and ends at some call of the last function it entered. `callReads` and
`footprint` find exactly the calls at the ends of chains no longer than the depth
allows, as far as these count as reads. The induction is on the depth; the list of
calls to start from varies with it, because one step of the walk moves from the
calls of a node or function to those of the function it enters.
-/
import PriceTaint.Proofs.Sequences
import PriceTaint.Proofs.Taint.Dispatch
import PriceTaint.Proofs.Text.Words
import PriceTaint.Taint.Reads

set_option autoImplicit false

namespace PriceTaint

namespace Program

/-! ## Bodies -/

theorem mem_bodyOf_iff (p : Program) (f : FunctionId) (id : NodeId) (n : Node) :
    (id, n) ∈ p.bodyOf f
      ↔ ∃ function, p.functionAt? f = some function ∧ id ∈ function.nodes
          ∧ p.nodeAt? id = some n := by
  rw [bodyOf]
  cases hf : p.functionAt? f with
  | none => simp
  | some function =>
    rw [List.mem_filterMap]
    constructor
    · rintro ⟨m, hm, hmap⟩
      obtain ⟨node, hnode, heq⟩ := Option.map_eq_some_iff.mp hmap
      cases heq
      exact ⟨function, rfl, hm, hnode⟩
    · rintro ⟨function', hf', hm, hnode⟩
      cases hf'
      exact ⟨id, hm, by rw [hnode]; rfl⟩

theorem mem_callsOf_iff (p : Program) (f : FunctionId) (id : CallId) :
    id ∈ p.callsOf f ↔ ∃ m n, (m, n) ∈ p.bodyOf f ∧ id ∈ n.calls := by
  rw [callsOf, List.mem_flatMap]
  constructor
  · rintro ⟨⟨m, n⟩, hbody, hid⟩
    exact ⟨m, n, hbody, hid⟩
  · rintro ⟨m, n, hbody, hid⟩
    exact ⟨(m, n), hbody, hid⟩

/-! ## Chains of calls -/

/-- The call goes to `g`, whose body is at hand, by none of the names. -/
def Follows (p : Program) (names : NameSet) (id : CallId) (g : FunctionId) : Prop :=
  ∃ c f, p.callAt? id = some c ∧ p.GoesTo c g f ∧ ∀ name ∈ names.names, ¬ p.GoesBy c name

/-- Which calls are followed, as it is decided on the walk. -/
theorem follows_iff (p : Program) (names : NameSet) (id : CallId) (g : FunctionId) :
    p.Follows names id g
      ↔ ∃ c f, p.callAt? id = some c ∧ p.dispatch c = .body g f
          ∧ p.callMatches c names = false := by
  have hnone : ∀ c, p.callMatches c names = false ↔ ∀ name ∈ names.names, ¬ p.GoesBy c name := by
    intro c
    rw [← Bool.not_eq_true, callMatches_iff]
    simp only [not_exists, not_and]
  simp only [Follows, dispatch_eq_body_iff, hnone]

/-- `last` is one of the calls, or is found behind them: a call of theirs is
followed into a function, and from the calls of that function on. The number is
that of the calls that have been followed. -/
inductive CallChain (p : Program) (names : NameSet) : List CallId → Nat → CallId → Prop where
  | last {calls : List CallId} {id : CallId} (h : id ∈ calls) : CallChain p names calls 0 id
  | follow {calls : List CallId} {id last : CallId} {g : FunctionId} {k : Nat} (h : id ∈ calls)
      (hfollow : p.Follows names id g) (hrest : CallChain p names (p.callsOf g) k last) :
      CallChain p names calls (k + 1) last

end Program

namespace Lens

/-! ## What the loops add -/

/-- The reads that one call gives rise to: itself if it goes by one of the names,
or else the reads `inside` the function it goes to. -/
def readsAt (lens : Lens) (p : Program) (inside : FunctionId → List CallId) (id : CallId) :
    List CallId :=
  match p.callAt? id with
  | none => []
  | some c =>
    match p.dispatch c with
    | .body callee _ =>
      if p.callMatches c lens.reads then (if lens.admits p c then [id] else []) else inside callee
    | .member _ => if p.callMatches c lens.reads && lens.admits p c then [id] else []
    | .unseen => []

/-- The reads of the built-in balance in a node. None is counted if the node
mentions the contract's own address. -/
def nativeReads (lens : Lens) (n : Node) : List PriceRead :=
  if lens.nativeBalance && !Text.contains n.text Call.selfAddress then
    n.internalCalls.filterMap fun
      | .builtin name => if name = nativeBalanceName then some (.builtin name) else none
      | .function _ => none
  else []

section Loops

variable (lens : Lens) (p : Program)

/-- One turn of the loop over the calls of a function. -/
theorem toList_collectAt {enter : FunctionId → Array CallId → Array CallId}
    {inside : FunctionId → List CallId}
    (henter : ∀ g found, (enter g found).toList = found.toList ++ inside g)
    (found : Array CallId) (id : CallId) :
    (lens.collectAt p enter found id).toList = found.toList ++ lens.readsAt p inside id := by
  unfold collectAt readsAt
  cases p.callAt? id with
  | none => exact (List.append_nil _).symm
  | some c =>
    dsimp only
    cases p.dispatch c with
    | body callee f =>
      cases p.callMatches c lens.reads with
      | true => cases lens.admits p c <;> simp
      | false => exact henter callee found
    | member name =>
      cases p.callMatches c lens.reads with
      | true => cases lens.admits p c <;> simp
      | false => exact (List.append_nil _).symm
    | unseen => exact (List.append_nil _).symm

/-- The walk adds to what has been found what it finds when nothing has been found. -/
theorem toList_collect (depth : Nat) (f : FunctionId) (found : Array CallId) :
    (lens.collect p depth f found).toList = found.toList ++ lens.callReads p depth f := by
  induction depth generalizing f found with
  | zero => exact (List.append_nil _).symm
  | succ depth ih =>
    -- whatever the loop starts from, its turns add what the walk finds one level below
    have hloop := List.toList_foldl_of_step (lens.toList_collectAt p ih) (p.callsOf f)
    rw [callReads, collect, collect, hloop, hloop, List.nil_append]

theorem callReads_zero (f : FunctionId) : lens.callReads p 0 f = [] := rfl

/-- The walk, without what is handed on. -/
theorem callReads_succ (depth : Nat) (f : FunctionId) :
    lens.callReads p (depth + 1) f
      = (p.callsOf f).flatMap (lens.readsAt p (lens.callReads p depth)) :=
  List.toList_foldl_of_step (lens.toList_collectAt p (lens.toList_collect p depth)) _ #[]

/-- One turn of the loop over the calls of a node. -/
theorem toList_noteCall (depth : Nat) (reads : Array PriceRead) (id : CallId) :
    (lens.noteCall p depth reads id).toList
      = reads.toList ++ (lens.readsAt p (lens.callReads p depth) id).map .call := by
  unfold noteCall readsAt
  cases p.callAt? id with
  | none => exact (List.append_nil _).symm
  | some c =>
    dsimp only
    cases p.dispatch c with
    | body callee f =>
      cases p.callMatches c lens.reads with
      | true => cases lens.admits p c <;> simp
      | false => exact Array.toList_appendList
    | member name =>
      cases p.callMatches c lens.reads with
      | true => cases lens.admits p c <;> simp
      | false => exact (List.append_nil _).symm
    | unseen => exact (List.append_nil _).symm

theorem toList_noteInternal (reads : Array PriceRead) (internal : InternalCall) :
    (noteInternal reads internal).toList
      = reads.toList ++ Option.toList (match internal with
          | .builtin name => if name = nativeBalanceName then some (.builtin name) else none
          | .function _ => none) := by
  unfold noteInternal
  cases internal with
  | builtin name => by_cases hname : name = nativeBalanceName <;> simp [hname]
  | function f => exact (List.append_nil _).symm

/-- A footprint, without what is handed on: the reads of the calls, one call after the
other, and then the built-in balance. -/
theorem footprint_eq (depth : Nat) (n : Node) :
    lens.footprint p depth n
      = if takesSnapshot p n then ⟨[], []⟩
        else
          { written := if n.shape = .assignment then n.written else []
            reads := (n.calls.flatMap (lens.readsAt p (lens.callReads p depth))).map .call
              ++ lens.nativeReads n } := by
  have hcalls : (n.calls.foldl (lens.noteCall p depth) #[]).toList
      = (n.calls.flatMap (lens.readsAt p (lens.callReads p depth))).map .call := by
    rw [List.toList_foldl_of_step (lens.toList_noteCall p depth), List.map_flatMap]
    rfl
  rw [footprint, nativeReads, ← hcalls]
  by_cases hnative : (lens.nativeBalance && !Text.contains n.text Call.selfAddress) = true
  · simp only [if_pos hnative, List.toList_foldl_of_step toList_noteInternal,
      List.filterMap_eq_flatMap_toList]
  · simp only [if_neg hnative, List.append_nil]

end Loops

/-! ## Reads behind calls -/

/-- The call counts as a price read: it goes to a body or to a member, by one of
the names, and is admitted. -/
def IsRead (lens : Lens) (p : Program) (id : CallId) : Prop :=
  ∃ c, p.callAt? id = some c ∧ ((∃ g f, p.GoesTo c g f) ∨ ∃ name, c.callee = .member name)
    ∧ (∃ name ∈ lens.reads.names, p.GoesBy c name) ∧ lens.admits p c = true

/-- Which calls are reads, as it is decided on the walk. -/
theorem isRead_iff (lens : Lens) (p : Program) (id : CallId) :
    lens.IsRead p id
      ↔ ∃ c, p.callAt? id = some c ∧ p.dispatch c ≠ .unseen
          ∧ p.callMatches c lens.reads = true ∧ lens.admits p c = true := by
  simp only [IsRead, Program.dispatch_ne_unseen_iff, Program.callMatches_iff]

/-- A call is a read, or is followed, or leads nowhere, and never two of these. -/
theorem readsAt_trichotomy (lens : Lens) (p : Program) (id : CallId) :
    (lens.IsRead p id ∧ (∀ g, ¬ p.Follows lens.reads id g)
        ∧ ∀ inside, lens.readsAt p inside id = [id])
      ∨ (∃ g, ¬ lens.IsRead p id ∧ (∀ g', p.Follows lens.reads id g' ↔ g' = g)
        ∧ ∀ inside, lens.readsAt p inside id = inside g)
      ∨ (¬ lens.IsRead p id ∧ (∀ g, ¬ p.Follows lens.reads id g)
        ∧ ∀ inside, lens.readsAt p inside id = []) := by
  simp only [isRead_iff, Program.follows_iff]
  unfold readsAt
  cases hc : p.callAt? id with
  | none => simp
  | some c =>
    cases hd : p.dispatch c with
    | body g f =>
      cases hm : p.callMatches c lens.reads with
      | true => cases ha : lens.admits p c <;> simp [hd, hm, ha]
      | false =>
        refine .inr (.inl ⟨g, by simp [hm], fun g' => ?_, fun inside => by simp [hd, hm]⟩)
        constructor
        · rintro ⟨c', f', hc', hbody, -⟩
          cases hc'
          rw [hd] at hbody
          cases hbody
          rfl
        · rintro rfl
          exact ⟨c, f, rfl, hd, hm⟩
    | member name =>
      cases hm : p.callMatches c lens.reads with
      | true => cases ha : lens.admits p c <;> simp [hd, hm, ha]
      | false => simp [hd, hm]
    | unseen => simp [hd]

/-- A call gives rise to itself if it is a read, and to what is inside the function
that it is followed into. -/
theorem mem_readsAt_iff (lens : Lens) (p : Program) (inside : FunctionId → List CallId)
    (id found : CallId) :
    found ∈ lens.readsAt p inside id
      ↔ (found = id ∧ lens.IsRead p id)
        ∨ ∃ g, p.Follows lens.reads id g ∧ found ∈ inside g := by
  rcases lens.readsAt_trichotomy p id with ⟨hread, hnone, heq⟩ | ⟨g, hread, hfollows, heq⟩
    | ⟨hread, hnone, heq⟩
  · simp [heq, hread, hnone]
  · simp [heq, hread, hfollows]
  · simp [heq, hread, hnone]

/-- The walk from a list of calls finds the reads at the ends of the chains that
follow at most `depth` calls. -/
theorem mem_flatMap_readsAt_iff (lens : Lens) (p : Program) (depth : Nat) (calls : List CallId)
    (found : CallId) :
    found ∈ calls.flatMap (lens.readsAt p (lens.callReads p depth))
      ↔ ∃ k, k ≤ depth ∧ p.CallChain lens.reads calls k found ∧ lens.IsRead p found := by
  induction depth generalizing calls with
  | zero =>
    rw [List.mem_flatMap]
    constructor
    · rintro ⟨id, hid, hfound⟩
      rcases (mem_readsAt_iff lens p _ id found).mp hfound with ⟨rfl, hread⟩ | ⟨g, -, hin⟩
      · exact ⟨0, Nat.le_refl 0, .last hid, hread⟩
      · rw [callReads_zero] at hin
        exact absurd hin List.not_mem_nil
    · rintro ⟨k, hk, hchain, hread⟩
      obtain rfl : k = 0 := Nat.le_zero.mp hk
      cases hchain with
      | last h => exact ⟨found, h, (mem_readsAt_iff lens p _ found found).mpr (.inl ⟨rfl, hread⟩)⟩
  | succ depth ih =>
    rw [List.mem_flatMap]
    constructor
    · rintro ⟨id, hid, hfound⟩
      rcases (mem_readsAt_iff lens p _ id found).mp hfound with ⟨rfl, hread⟩ | ⟨g, hfollow, hin⟩
      · exact ⟨0, Nat.zero_le _, .last hid, hread⟩
      · rw [callReads_succ] at hin
        obtain ⟨k, hk, hchain, hread⟩ := (ih (p.callsOf g)).mp hin
        exact ⟨k + 1, Nat.succ_le_succ hk, .follow hid hfollow hchain, hread⟩
    · rintro ⟨k, hk, hchain, hread⟩
      cases hchain with
      | last h => exact ⟨found, h, (mem_readsAt_iff lens p _ found found).mpr (.inl ⟨rfl, hread⟩)⟩
      | @follow _ id _ g k h hfollow hrest =>
        -- the rest of the chain starts at the calls of `g`, with one less to follow
        refine ⟨id, h, (mem_readsAt_iff lens p _ id found).mpr (.inr ⟨g, hfollow, ?_⟩)⟩
        rw [callReads_succ]
        exact (ih (p.callsOf g)).mpr ⟨k, Nat.le_of_succ_le_succ hk, hrest, hread⟩

/-! ## Footprints -/

theorem plain_before : Text.Plain "before".toList where
  ascii := by simp [Text.Foreign]
  noKelvin := by decide
  noDotted := by decide

theorem plain_after : Text.Plain "after".toList where
  ascii := by simp [Text.Foreign]
  noKelvin := by decide
  noDotted := by decide

/-- A variable that holds a snapshot has `before` or `after` in its name, in any
mixture of cases. -/
theorem isSnapshotName_iff (name : String) :
    isSnapshotName name = true
      ↔ Text.Mentioned "before" name ∨ Text.Mentioned "after" name := by
  rw [isSnapshotName, Bool.or_eq_true, Text.mentions_iff plain_before (by decide),
    Text.mentions_iff plain_after (by decide)]

/-- The node assigns to a variable that is named as a snapshot. -/
def SnapshotTaken (p : Program) (n : Node) : Prop :=
  n.shape = .assignment ∧ ∃ v ∈ n.written, ∃ x, p.variableAt? v = some x
    ∧ (Text.Mentioned "before" x.name ∨ Text.Mentioned "after" x.name)

theorem takesSnapshot_iff (p : Program) (n : Node) :
    takesSnapshot p n = true ↔ SnapshotTaken p n := by
  rw [takesSnapshot, SnapshotTaken, Bool.and_eq_true, beq_iff_eq, List.any_eq_true]
  simp only [Option.any_eq_true, isSnapshotName_iff]

/-- The reads that a node makes: at the ends of chains that start at its calls, and
the built-in balance where the lens counts it. -/
def Makes (lens : Lens) (p : Program) (depth : Nat) (n : Node) : PriceRead → Prop
  | .call id => ∃ k, k ≤ depth ∧ p.CallChain lens.reads n.calls k id ∧ lens.IsRead p id
  | .builtin name => lens.nativeBalance = true ∧ name = nativeBalanceName
      ∧ .builtin nativeBalanceName ∈ n.internalCalls ∧ ¬ Text.Contained Call.selfAddress n.text

theorem mem_nativeReads_iff (lens : Lens) (n : Node) (read : PriceRead) :
    read ∈ lens.nativeReads n
      ↔ lens.nativeBalance = true ∧ read = .builtin nativeBalanceName
        ∧ .builtin nativeBalanceName ∈ n.internalCalls
        ∧ ¬ Text.Contained Call.selfAddress n.text := by
  rw [nativeReads, ← Text.contains_iff]
  -- the lens and the text decide alike for all internal calls of the node
  by_cases hnative : (lens.nativeBalance && !Text.contains n.text Call.selfAddress) = true
  · rw [if_pos hnative, List.mem_filterMap]
    rw [Bool.and_eq_true, Bool.not_eq_true'] at hnative
    constructor
    · rintro ⟨internal, hin, hsome⟩
      cases internal with
      | function f => simp at hsome
      | builtin name =>
        by_cases hname : name = nativeBalanceName
        · subst hname
          simp only [if_true, Option.some.injEq] at hsome
          exact ⟨hnative.1, hsome.symm, hin, by rw [hnative.2]; simp⟩
        · simp [hname] at hsome
    · rintro ⟨-, rfl, hin, -⟩
      exact ⟨.builtin nativeBalanceName, hin, by simp⟩
  · rw [if_neg hnative]
    rw [Bool.and_eq_true, Bool.not_eq_true', not_and, Bool.not_eq_false] at hnative
    constructor
    · intro h
      exact absurd h List.not_mem_nil
    · rintro ⟨hb, -, -, hself⟩
      exact absurd (hnative hb) hself

/-- A node leaves the reads that it makes as its footprint, unless it takes a
snapshot. -/
theorem mem_footprint_reads_iff (lens : Lens) (p : Program) (depth : Nat) (n : Node)
    (read : PriceRead) :
    read ∈ (lens.footprint p depth n).reads
      ↔ ¬ SnapshotTaken p n ∧ lens.Makes p depth n read := by
  rw [footprint_eq, ← takesSnapshot_iff]
  by_cases hsnap : takesSnapshot p n = true
  · rw [if_pos hsnap]
    simp [hsnap]
  · rw [if_neg hsnap, List.mem_append, List.mem_map, mem_nativeReads_iff]
    simp only [mem_flatMap_readsAt_iff]
    cases read with
    | call id => simp [hsnap, Makes]
    | builtin name => simp [hsnap, Makes]

/-- A node leaves what it assigns as its footprint, unless it takes a snapshot. -/
theorem mem_footprint_written_iff (lens : Lens) (p : Program) (depth : Nat) (n : Node)
    (v : VariableId) :
    v ∈ (lens.footprint p depth n).written
      ↔ ¬ SnapshotTaken p n ∧ n.shape = .assignment ∧ v ∈ n.written := by
  rw [footprint_eq, ← takesSnapshot_iff]
  by_cases hsnap : takesSnapshot p n = true
  · rw [if_pos hsnap]
    simp [hsnap]
  · rw [if_neg hsnap]
    by_cases hshape : n.shape = .assignment
    · simp [hsnap, hshape]
    · simp [hshape]

/-- All lenses see the same assignments, to any depth. -/
theorem footprint_written_eq (lens lens' : Lens) (p : Program) (depth depth' : Nat) (n : Node) :
    (lens.footprint p depth n).written = (lens'.footprint p depth' n).written := by
  rw [footprint_eq, footprint_eq]
  by_cases hsnap : takesSnapshot p n = true
  · rw [if_pos hsnap, if_pos hsnap]
  · rw [if_neg hsnap, if_neg hsnap]

end Lens

end PriceTaint
