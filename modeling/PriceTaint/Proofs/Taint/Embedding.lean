/-
A detector sees an embedded program as it would see it alone.

Let a closed program be embedded in another one, under new names. The two runs are
compared stage by stage, and every stage gives the same list, with the handles in it
renamed. Three things carry the comparison. All look-ups start at a handle that a part
of the smaller program holds, so the parts that the larger one has besides are never
seen. Names, texts and kinds belong to the parts and move along with them. And where
handles are compared, which is where repetitions are removed, a renaming that keeps
different handles apart gives the same outcome.

The influence may differ between the two runs, as long as it answers alike inside the
functions of the contract.
-/
import PriceTaint.Proofs.Program.Embedding
import PriceTaint.Proofs.Taint.Resolution

set_option autoImplicit false

namespace PriceTaint

/-! ## Renaming what the stages pass on -/

section Outcomes

variable (ρ : Renaming)

def Dispatch.rename : Dispatch → Dispatch
  | .body id f => .body (ρ.on id) (f.rename ρ)
  | .member name => .member name
  | .unseen => .unseen

def PriceRead.rename : PriceRead → PriceRead
  | .call id => .call (ρ.on id)
  | .builtin name => .builtin name

def Footprint.rename (f : Footprint) : Footprint :=
  ⟨f.written.map ρ.on, f.reads.map (PriceRead.rename ρ)⟩

def DependentFlow.rename (f : DependentFlow) : DependentFlow :=
  ⟨ρ.on f.function, ρ.on f.risk, ρ.on f.tainted, f.read.rename ρ, ρ.on f.node⟩

def ReturnFlow.rename (f : ReturnFlow) : ReturnFlow :=
  ⟨ρ.on f.function, f.read.rename ρ, ρ.on f.node⟩

def Entry.rename : Entry → Entry
  | .dependent flow => .dependent (flow.rename ρ)
  | .returned flow => .returned (flow.rename ρ)

def Fragment.rename : Fragment → Fragment
  | .text s => .text s
  | .node id => .node (ρ.on id)

def ContractReport.rename (r : ContractReport) : ContractReport :=
  { r with
    contract := ρ.on r.contract
    message := r.message.map (Fragment.rename ρ)
    entries := r.entries.map (Entry.rename ρ) }

end Outcomes

/-- Renaming commutes with removing repetitions. -/
theorem Renaming.eraseDups_map (ρ : Renaming) {kind : Kind} :
    (hs : List (Handle kind)) → (hs.map ρ.on).eraseDups = hs.eraseDups.map ρ.on
  | [] => rfl
  | h :: hs => by
    -- this is where different handles have to stay different
    have hsame : ((fun x => !x == ρ.on h) ∘ ρ.on) = fun x => !x == h := by
      funext x
      by_cases hx : x = h
      · simp [hx]
      · have hne : ρ.on x ≠ ρ.on h := fun heq => hx (ρ.injective heq)
        simp [hx, hne]
    rw [List.map_cons, List.eraseDups_cons, List.eraseDups_cons, List.map_cons, List.filter_map,
      hsame, eraseDups_map ρ (hs.filter fun x => !x == h)]
termination_by hs => hs.length
decreasing_by
  rw [List.length_cons]
  exact Nat.lt_succ_of_le (List.length_filter_le _ _)

namespace Program

/-! ## Calls -/

section Calls

variable {ρ : Renaming} {p p' : Program} (h : p.Embeds ρ p') (hp : p.Closed)

/-- The calls in a body are calls of the program. -/
theorem Closed.exists_call_of_mem_callsOf {p : Program} (hp : p.Closed) {f : FunctionId}
    {id : CallId} (hid : id ∈ p.callsOf f) : ∃ c, p.callAt? id = some c := by
  obtain ⟨m, n, hbody, hn⟩ := (p.mem_callsOf_iff f id).mp hid
  obtain ⟨-, -, -, hnode⟩ := (p.mem_bodyOf_iff f m n).mp hbody
  exact hp.called hnode hn

include h hp

theorem Embeds.dispatch_eq {id : CallId} {c : Call} (hc : p.callAt? id = some c) :
    p'.dispatch (c.rename ρ) = (p.dispatch c).rename ρ := by
  have hcallee : (c.rename ρ).callee = c.callee.rename ρ := rfl
  rw [dispatch, dispatch, hcallee]
  cases hcal : c.callee with
  | resolved target =>
    cases target with
    | function g =>
      obtain ⟨f, hf⟩ := hp.target hc hcal
      have hkind : (f.rename ρ).isModifier = f.isModifier := rfl
      simp only [Callee.rename, Target.rename, h.functions hf, hf, hkind]
      cases f.isModifier <;> rfl
    | modifier g => rfl
    | event name => rfl
    | builtin name => rfl
  | member name => rfl
  | other => rfl

theorem Embeds.callMatches_eq {id : CallId} {c : Call} (hc : p.callAt? id = some c)
    (names : NameSet) : p'.callMatches (c.rename ρ) names = p.callMatches c names := by
  rw [callMatches, callMatches, h.dispatch_eq hp hc]
  cases p.dispatch c with
  | body g f => rfl
  | member name => rfl
  | unseen =>
    have hcallee : (c.rename ρ).callee = c.callee.rename ρ := rfl
    rw [hcallee]
    rcases c.callee with (_ | _ | _ | _) | _ | _ <;> rfl

theorem Embeds.asksPoolHolder_eq {id : CallId} {c : Call} (hc : p.callAt? id = some c) :
    p'.asksPoolHolder (c.rename ρ) = p.asksPoolHolder c := by
  have harguments : (c.rename ρ).arguments = c.arguments.map (Argument.rename ρ) := rfl
  rw [asksPoolHolder, asksPoolHolder, harguments]
  cases hargs : c.arguments with
  | nil => rfl
  | cons a as =>
    have ha : a ∈ c.arguments := by rw [hargs]; exact List.mem_cons_self
    have htext : (a.rename ρ).text = a.text := rfl
    have hoperand : (a.rename ρ).operand = a.operand.rename ρ := rfl
    rw [List.map_cons]
    dsimp only
    rw [htext, hoperand]
    rcases hop : a.operand with v | v | _
    · obtain ⟨x, hx⟩ := hp.argument hc ha (by rw [hop]; rfl)
      simp only [Operand.rename, h.variableAt?_eq hx]
    · obtain ⟨x, hx⟩ := hp.argument hc ha (by rw [hop]; rfl)
      simp only [Operand.rename, h.variableAt?_eq hx]
    · rfl

end Calls

end Program

theorem Call.readsOwnBalance_rename (ρ : Renaming) (c : Call) :
    (c.rename ρ).readsOwnBalance = c.readsOwnBalance := by
  have harguments : (c.rename ρ).arguments = c.arguments.map (Argument.rename ρ) := rfl
  rw [readsOwnBalance, readsOwnBalance, harguments]
  rcases c.arguments with _ | ⟨a, _ | ⟨b, rest⟩⟩ <;> rfl

/-! ## Reads -/

namespace Lens

section Reads

variable (lens : Lens) {ρ : Renaming} {p p' : Program} (h : p.Embeds ρ p') (hp : p.Closed)

include h hp

theorem admits_embeds {id : CallId} {c : Call} (hc : p.callAt? id = some c) :
    lens.admits p' (c.rename ρ) = lens.admits p c := by
  have hlength : (c.rename ρ).arguments.length = c.arguments.length := List.length_map _
  rw [admits, admits, Call.readsOwnBalance_rename, h.callMatches_eq hp hc,
    h.asksPoolHolder_eq hp hc, hlength]

/-- One call gives rise to the same reads, if the functions that exist do. -/
theorem readsAt_embeds {inside inside' : FunctionId → List CallId}
    (hinside : ∀ g f, p.functionAt? g = some f → inside' (ρ.on g) = (inside g).map ρ.on)
    {id : CallId} {c : Call} (hc : p.callAt? id = some c) :
    lens.readsAt p' inside' (ρ.on id) = (lens.readsAt p inside id).map ρ.on := by
  rw [readsAt, readsAt, h.calls hc, hc]
  dsimp only
  rw [h.dispatch_eq hp hc, h.callMatches_eq hp hc, lens.admits_embeds h hp hc]
  cases hd : p.dispatch c with
  | body g f =>
    dsimp only [Dispatch.rename]
    by_cases hmatch : p.callMatches c lens.reads = true
    · rw [if_pos hmatch, if_pos hmatch]
      cases lens.admits p c <;> rfl
    · rw [if_neg hmatch, if_neg hmatch]
      exact hinside g f (Program.dispatch_eq_body_iff.mp hd).found
  | member name =>
    dsimp only [Dispatch.rename]
    cases p.callMatches c lens.reads && lens.admits p c <;> rfl
  | unseen => rfl

/-- The walk from a list of calls that all exist. -/
theorem flatMap_readsAt_embeds {inside inside' : FunctionId → List CallId}
    (hinside : ∀ g f, p.functionAt? g = some f → inside' (ρ.on g) = (inside g).map ρ.on)
    {calls : List CallId} (hcalls : ∀ id ∈ calls, ∃ c, p.callAt? id = some c) :
    (calls.map ρ.on).flatMap (lens.readsAt p' inside')
      = (calls.flatMap (lens.readsAt p inside)).map ρ.on := by
  rw [List.flatMap_map, List.map_flatMap]
  refine List.flatMap_congr fun id hid => ?_
  obtain ⟨c, hc⟩ := hcalls id hid
  exact lens.readsAt_embeds h hp hinside hc

theorem callReads_embeds (depth : Nat) (f : FunctionId) (function : Function)
    (hf : p.functionAt? f = some function) :
    lens.callReads p' depth (ρ.on f) = (lens.callReads p depth f).map ρ.on := by
  -- the walk goes on in other functions, so the induction is over all that exist
  induction depth generalizing f function with
  | zero =>
    rw [callReads_zero, callReads_zero]
    rfl
  | succ depth ih =>
    rw [callReads_succ, callReads_succ, h.callsOf_eq hp hf]
    exact lens.flatMap_readsAt_embeds h hp ih fun id hid => hp.exists_call_of_mem_callsOf hid

theorem takesSnapshot_embeds {id : NodeId} {n : Node} (hn : p.nodeAt? id = some n) :
    takesSnapshot p' (n.rename ρ) = takesSnapshot p n := by
  have hshape : (n.rename ρ).shape = n.shape := rfl
  have hwritten : (n.rename ρ).written = n.written.map ρ.on := rfl
  rw [takesSnapshot, takesSnapshot, hshape, hwritten, List.any_map]
  congr 1
  rw [Bool.eq_iff_iff, List.any_eq_true, List.any_eq_true]
  refine exists_congr fun v => and_congr_right fun hv => ?_
  obtain ⟨x, hx⟩ := hp.written hn hv
  rw [Function.comp_apply, h.variableAt?_eq hx]

omit h hp in
theorem nativeReads_rename (n : Node) :
    lens.nativeReads (n.rename ρ) = (lens.nativeReads n).map (PriceRead.rename ρ) := by
  have htext : (n.rename ρ).text = n.text := rfl
  have hinternal : (n.rename ρ).internalCalls = n.internalCalls.map (InternalCall.rename ρ) := rfl
  rw [nativeReads, nativeReads, htext, hinternal]
  by_cases hnative : (lens.nativeBalance && !Text.contains n.text Call.selfAddress) = true
  · rw [if_pos hnative, if_pos hnative, List.filterMap_map, List.map_filterMap]
    refine List.filterMap_congr fun internal _ => ?_
    cases internal with
    | function f => rfl
    | builtin name =>
      by_cases hname : name = nativeBalanceName <;>
        simp [InternalCall.rename, PriceRead.rename, hname]
  · rw [if_neg hnative, if_neg hnative]
    rfl

/-- The footprint of a node. -/
theorem footprint_embeds (depth : Nat) {id : NodeId} {n : Node} (hn : p.nodeAt? id = some n) :
    lens.footprint p' depth (n.rename ρ) = (lens.footprint p depth n).rename ρ := by
  rw [footprint_eq, footprint_eq, takesSnapshot_embeds h hp hn]
  by_cases hsnap : takesSnapshot p n = true
  · rw [if_pos hsnap, if_pos hsnap]
    rfl
  · rw [if_neg hsnap, if_neg hsnap]
    have hshape : (n.rename ρ).shape = n.shape := rfl
    have hwritten : (n.rename ρ).written = n.written.map ρ.on := rfl
    have hcalls : (n.rename ρ).calls = n.calls.map ρ.on := rfl
    have hwalk := lens.flatMap_readsAt_embeds h hp (lens.callReads_embeds h hp depth)
      (fun id hid => hp.called hn hid : ∀ id ∈ n.calls, ∃ c, p.callAt? id = some c)
    rw [hshape, hwritten, hcalls, hwalk, lens.nativeReads_rename]
    simp only [Footprint.rename, Footprint.mk.injEq, List.map_append, List.map_map]
    constructor
    · by_cases hassign : n.shape = .assignment
      · rw [if_pos hassign, if_pos hassign]
      · rw [if_neg hassign, if_neg hassign]
        rfl
    · rfl

end Reads

end Lens

/-! ## Flows -/

namespace Analysis

section Sinks

variable {ρ : Renaming} {p p' : Program} (h : p.Embeds ρ p') (hp : p.Closed)

theorem bareVariable?_rename (a : Argument) :
    (a.rename ρ).bareVariable? = a.bareVariable?.map ρ.on := by
  have hoperand : (a.rename ρ).operand = a.operand.rename ρ := rfl
  rw [Argument.bareVariable?, Argument.bareVariable?, hoperand]
  cases a.operand <;> rfl

include h hp

/-- The variables passed to one call. -/
theorem arguments_embeds {id : CallId} {c : Call} (hc : p.callAt? id = some c) :
    ((c.rename ρ).arguments.filterMap Argument.bareVariable?).filter
        (fun v => (p'.variableAt? v).isSome)
      = ((c.arguments.filterMap Argument.bareVariable?).filter
          fun v => (p.variableAt? v).isSome).map ρ.on := by
  have harguments : (c.rename ρ).arguments = c.arguments.map (Argument.rename ρ) := rfl
  have hbare : (Argument.bareVariable? ∘ Argument.rename ρ)
      = fun a => a.bareVariable?.map ρ.on := funext bareVariable?_rename
  rw [harguments, List.filterMap_map, hbare, ← List.map_filterMap, List.filter_map]
  refine congrArg (List.map ρ.on) (List.filter_congr fun v hv => ?_)
  obtain ⟨a, ha, hav⟩ := List.mem_filterMap.mp hv
  have hoperand : Program.operandVariable? a.operand = some v := by
    rw [(bareVariable?_eq_some_iff a v).mp hav]
    rfl
  obtain ⟨x, hx⟩ := hp.argument hc ha hoperand
  rw [Function.comp_apply, h.variableAt?_eq hx]

theorem movedAmounts_embeds {f : FunctionId} {function : Function}
    (hf : p.functionAt? f = some function) :
    movedAmounts p' (ρ.on f) = (movedAmounts p f).map ρ.on := by
  rw [movedAmounts_eq, movedAmounts_eq, h.callsOf_eq hp hf, List.flatMap_map, List.map_flatMap]
  refine List.flatMap_congr fun id hid => ?_
  obtain ⟨c, hc⟩ := hp.exists_call_of_mem_callsOf hid
  rw [h.calls hc, hc, Option.toList_some, Option.toList_some, List.flatMap_singleton,
    List.flatMap_singleton, h.callMatches_eq hp hc]
  by_cases hmoves : p.callMatches c .fundMovements = true
  · rw [if_pos hmoves, if_pos hmoves]
    exact arguments_embeds h hp hc
  · rw [if_neg hmoves, if_neg hmoves]
    rfl

theorem returnedValues_embeds {f : FunctionId} {function : Function}
    (hf : p.functionAt? f = some function) :
    returnedValues p' (ρ.on f) = (returnedValues p f).map ρ.on := by
  rw [returnedValues, returnedValues, List.flatMap_filter_eq, List.flatMap_filter_eq, h.bodyOf_eq hp hf,
    h.functions hf, hf, List.map_append, List.flatMap_map, List.map_flatMap]
  congr 1
  refine List.flatMap_congr fun e _ => ?_
  have hreturns : (e.2.rename ρ).willReturn = e.2.willReturn := rfl
  rw [hreturns]
  cases e.2.willReturn <;> rfl

end Sinks

section Flows

variable {ρ : Renaming} {p p' : Program} (h : p.Embeds ρ p') (hp : p.Closed) {lens : Lens}
  {depth : Nat} {influence influence' : Influence}

include h hp

theorem riskVariables_embeds {f : FunctionId} {function : Function}
    (hf : p.functionAt? f = some function) :
    riskVariables ⟨p', lens, influence', depth⟩ (ρ.on f)
      = (riskVariables ⟨p, lens, influence, depth⟩ f).map ρ.on := by
  rw [riskVariables, riskVariables]
  cases lens.sink with
  | movedAmounts =>
    dsimp only
    rw [movedAmounts_embeds h hp hf, ρ.eraseDups_map]
  | returnedValues =>
    dsimp only
    rw [returnedValues_embeds h hp hf, ρ.eraseDups_map]

/-- The dependent flows of a function inside which the two influences answer alike. -/
theorem dependentFlows_embeds {f : FunctionId} {function : Function}
    (hf : p.functionAt? f = some function)
    (hinfl : ∀ risk v, influence' (ρ.on risk) (ρ.on v) (ρ.on f) = influence risk v f) :
    dependentFlows ⟨p', lens, influence', depth⟩ (ρ.on f)
      = (dependentFlows ⟨p, lens, influence, depth⟩ f).map (DependentFlow.rename ρ) := by
  -- sink variables outside, nodes inside: both lists are the same up to names
  rw [dependentFlows_eq, dependentFlows_eq, riskVariables_embeds h hp hf, h.bodyOf_eq hp hf,
    List.flatMap_map, List.map_flatMap]
  refine List.flatMap_congr fun risk _ => ?_
  rw [List.flatMap_map, List.map_flatMap]
  refine List.flatMap_congr fun e he => ?_
  obtain ⟨-, -, -, hnode⟩ := (p.mem_bodyOf_iff f e.1 e.2).mp he
  have hprint := lens.footprint_embeds h hp depth hnode
  have hsame : ((fun v => influence' (ρ.on risk) v (ρ.on f)) ∘ ρ.on)
      = fun v => influence risk v f := funext fun v => hinfl risk v
  simp only [flowsInto, footprint, hprint, Footprint.rename, List.filter_map, hsame,
    List.flatMap_map, List.map_flatMap, List.map_map]
  rfl

theorem returned_embeds {f : FunctionId} {function : Function}
    (hf : p.functionAt? f = some function) :
    (flows ⟨p', lens, influence', depth⟩ (ρ.on f)).returned
      = (flows ⟨p, lens, influence, depth⟩ f).returned.map (ReturnFlow.rename ρ) := by
  rw [flows, flows]
  dsimp only
  by_cases hneeds : lens.needsInfluence = true
  · rw [if_pos hneeds, if_pos hneeds]
    rfl
  · rw [if_neg hneeds, if_neg hneeds, returnReads_eq, returnReads_eq, h.bodyOf_eq hp hf,
      List.flatMap_map, List.map_flatMap, List.map_flatMap, List.map_flatMap]
    refine List.flatMap_congr fun e he => ?_
    obtain ⟨-, -, -, hnode⟩ := (p.mem_bodyOf_iff f e.1 e.2).mp he
    have hprint := lens.footprint_embeds h hp depth hnode
    have hreturns : returnsCalls (e.2.rename ρ) = returnsCalls e.2 := by
      rw [returnsCalls, returnsCalls]
      exact congrArg (e.2.willReturn && !Text.contains e.2.text "require" && !·) List.isEmpty_map
    rw [hreturns]
    by_cases hret : returnsCalls e.2 = true
    · rw [if_pos hret, if_pos hret]
      simp only [footprint, hprint, Footprint.rename, List.map_map]
      rfl
    · rw [if_neg hret, if_neg hret]
      rfl

/-- The entries of several functions. -/
theorem entries_embeds {fs : List FunctionId}
    (hfs : ∀ f ∈ fs, ∃ function, p.functionAt? f = some function)
    (hinfl : ∀ f ∈ fs, ∀ risk v, influence' (ρ.on risk) (ρ.on v) (ρ.on f) = influence risk v f) :
    (flowsOf ⟨p', lens, influence', depth⟩ (fs.map ρ.on)).entries
      = (flowsOf ⟨p, lens, influence, depth⟩ fs).entries.map (Entry.rename ρ) := by
  rw [entries_flowsOf, entries_flowsOf, List.map_append, List.flatMap_map, List.flatMap_map,
    List.map_flatMap, List.map_flatMap]
  congr 1
  · refine List.flatMap_congr fun f hf => ?_
    obtain ⟨function, hfun⟩ := hfs f hf
    rw [dependentFlows_embeds h hp hfun (hinfl f hf), List.map_map, List.map_map]
    rfl
  · refine List.flatMap_congr fun f hf => ?_
    obtain ⟨function, hfun⟩ := hfs f hf
    rw [returned_embeds h hp hfun, List.map_map, List.map_map]
    rfl

end Flows

end Analysis

/-! ## Reports -/

section Reports

variable {ρ : Renaming} {p p' : Program} (h : p.Embeds ρ p')

theorem Entry.node_rename (e : Entry) : (e.rename ρ).node = ρ.on e.node := by cases e <;> rfl

theorem Entry.function_rename (e : Entry) : (e.rename ρ).function = ρ.on e.function := by
  cases e <;> rfl

theorem Entry.involved_rename (e : Entry) : (e.rename ρ).involved = e.involved.map ρ.on := by
  cases e <;> rfl

/-- A node has been seen under its new name exactly if it has been seen. -/
theorem Renaming.contains_map {kind : Kind} (seen : List (Handle kind)) (x : Handle kind) :
    (seen.map ρ.on).contains (ρ.on x) = seen.contains x := by
  rw [Bool.eq_iff_iff, List.contains_iff_mem, List.contains_iff_mem]
  exact List.mem_map_of_injective fun _ _ => ρ.injective

include h

theorem Program.Embeds.isReportable_eq {id : NodeId} {n : Node} (hn : p.nodeAt? id = some n) :
    p'.isReportable (ρ.on id) = p.isReportable id := by
  rw [isReportable, isReportable, h.nodes hn, hn]
  rfl

theorem ContractReport.keep_embeds (oncePerNode : Bool) (seen : List NodeId) (es : List Entry)
    (hes : ∀ e ∈ es, ∃ n, p.nodeAt? e.node = some n) :
    keep p' oncePerNode (seen.map ρ.on) (es.map (Entry.rename ρ))
      = (keep p oncePerNode seen es).map (Entry.rename ρ) := by
  -- the nodes seen so far are renamed as well, and so the two runs stay in step
  induction es generalizing seen with
  | nil => rfl
  | cons e es ih =>
    obtain ⟨⟨n, hn⟩, hrest⟩ := List.forall_mem_cons.mp hes
    rw [List.map_cons, keep, keep, e.node_rename, ρ.contains_map, h.isReportable_eq hn]
    by_cases hdrop : ((oncePerNode && seen.contains e.node) || !p.isReportable e.node) = true
    · rw [if_pos hdrop, if_pos hdrop]
      exact ih seen hrest
    · rw [if_neg hdrop, if_neg hdrop, List.map_cons]
      exact congrArg (e.rename ρ :: ·) (ih (e.node :: seen) hrest)

theorem PriceRead.Resolved.render_embeds {read : PriceRead} (hread : read.Resolved p) :
    (read.rename ρ).render p' = read.render p := by
  cases hread with
  | call hc => exact h.callText_eq hc
  | balance => rfl

theorem Fragment.render_embeds {fragment : Fragment} {s : String}
    (hs : fragment.render? p = some s) : (fragment.rename ρ).render p' = s := by
  cases fragment with
  | text t => exact Option.some.inj hs
  | node id =>
    obtain ⟨n, hn, rfl⟩ := Option.map_eq_some_iff.mp hs
    show p'.nodeText (ρ.on id) = n.text
    rw [h.nodeText_eq hn, Program.nodeText, hn]
    rfl

/-- An entry says the same in both programs, about the node under its new name. -/
theorem Entry.Resolved.fragments_embeds {a : Analysis} (ha : a.program = p) {contract : Contract}
    {e : Entry} (he : e.Resolved a contract) :
    (e.rename ρ).fragments p' = (e.fragments p).map (Fragment.rename ρ) := by
  subst ha
  obtain ⟨node, hplace⟩ := he.located
  obtain ⟨function, hfun, -⟩ := hplace.listed
  have hremark : (e.rename ρ).remark p' = (e.remark a.program).map (Fragment.rename ρ) := by
    cases he with
    | dependent _ read _ _ tainted _ risk =>
      obtain ⟨x, hx⟩ := tainted
      obtain ⟨y, hy⟩ := risk
      simp only [Entry.rename, DependentFlow.rename, remark, read.render_embeds h,
        h.variableName_eq hx, h.variableName_eq hy]
      rfl
    | returned _ read =>
      simp only [Entry.rename, ReturnFlow.rename, remark, read.render_embeds h]
      rfl
  rw [fragments, fragments, hremark, e.node_rename, e.function_rename, h.functionName_eq hfun,
    List.map_append]
  rfl

theorem ContractReport.messageOf_embeds {a : Analysis} (ha : a.program = p) {contract : Contract}
    {es : List Entry} (hes : ∀ e ∈ es, e.Resolved a contract) :
    messageOf p' (es.map (Entry.rename ρ)) = (messageOf p es).map (Fragment.rename ρ) := by
  rw [messageOf, messageOf, List.map_cons, List.flatMap_map, List.map_flatMap]
  refine congrArg (_ :: ·) (List.flatMap_congr fun e he => ?_)
  exact (hes e he).fragments_embeds h ha

theorem ContractReport.ofFlows?_embeds {a : Analysis} (ha : a.program = p) {c : ContractId}
    {contract : Contract} (hc : p.contractAt? c = some contract) {flows flows' : Flows}
    (hflows : ∀ e ∈ flows.entries, e.Resolved a contract)
    (hentries : flows'.entries = flows.entries.map (Entry.rename ρ)) (oncePerNode : Bool) :
    ofFlows? p' (ρ.on c) flows' oncePerNode
      = (ofFlows? p c flows oncePerNode).map (ContractReport.rename ρ) := by
  have hnodes : ∀ e ∈ flows.entries, ∃ n, p.nodeAt? e.node = some n := by
    intro e he
    obtain ⟨node, hplace⟩ := (hflows e he).located
    exact ⟨node, ha ▸ hplace.found⟩
  have hkeep := keep_embeds h oncePerNode [] flows.entries hnodes
  rw [List.map_nil] at hkeep
  rw [ofFlows?, ofFlows?, hentries, hkeep]
  cases hkept : keep p oncePerNode [] flows.entries with
  | nil => rfl
  | cons e es =>
    have hresolved : ∀ e' ∈ e :: es, e'.Resolved a contract := by
      intro e' he'
      rw [← hkept] at he'
      exact hflows e' ((keep_sublist _ _ _ _).subset he')
    have hmessage := messageOf_embeds h ha hresolved
    rw [List.map_cons] at hmessage ⊢
    dsimp only
    rw [hmessage, h.contracts hc, hc]
    rfl

/-- A contract is exempt in both programs, and for the same reason. -/
theorem Program.Embeds.exemption?_eq (hp : p.Closed) {c : ContractId} {contract : Contract}
    (hc : p.contractAt? c = some contract) : p'.exemption? (ρ.on c) = p.exemption? c := by
  rw [exemption?, exemption?, h.contracts hc, hc, h.declaredNames_eq hp hc]
  rfl

/-- A location in both programs: only the number of the node may change. -/
theorem Location.ofNode_embeds (hp : p.Closed) {f : FunctionId} {function : Function}
    (hf : p.functionAt? f = some function) {n : NodeId} {node : Node}
    (hn : p.nodeAt? n = some node) :
    ofNode p' (ρ.on f) (ρ.on n) = { ofNode p f n with node := (ρ.on n).index } := by
  obtain ⟨home, hhome⟩ := hp.home hf
  have hcontract : (function.rename ρ).contract = ρ.on function.contract := rfl
  simp only [ofNode, h.functions hf, hf, Option.bind_some, hcontract, h.contracts hhome, hhome,
    h.functionName_eq hf, h.nodeText_eq hn]
  rfl

end Reports

namespace Detector

section Whole

variable (d : Detector) {ρ : Renaming} {p p' : Program} (h : p.Embeds ρ p') (hp : p.Closed)
  {influence influence' : Influence} {c : ContractId}

include h hp

/-- The report on a contract of the smaller program is the report on it in the larger
one, with its handles renamed. -/
theorem reportOn_embeds {contract : Contract} (hc : p.contractAt? c = some contract)
    (hinfl : ∀ f ∈ contract.functions, ∀ risk v,
      influence' (ρ.on risk) (ρ.on v) (ρ.on f) = influence risk v f) :
    d.reportOn p' influence' (ρ.on c)
      = (d.reportOn p influence c).map (ContractReport.rename ρ) := by
  rw [reportOn, reportOn, h.exemption?_eq hp hc, h.contracts hc, hc]
  cases p.exemption? c with
  | some reason => rfl
  | none =>
    have hentries : ((d.analysis p' influence').flowsOf (contract.rename ρ).functions).entries
        = ((d.analysis p influence).flowsOf contract.functions).entries.map (Entry.rename ρ) :=
      Analysis.entries_embeds h hp (fun f hf => hp.callable hc hf) hinfl
    have hresolved : ∀ e ∈ ((d.analysis p influence).flowsOf contract.functions).entries,
        e.Resolved (d.analysis p influence) contract :=
      fun e he => Analysis.resolved_of_mem_entries hp he
    exact ContractReport.ofFlows?_embeds h rfl hc hresolved hentries d.oncePerNode

/-- The text of a report does not depend on the names of handles. -/
theorem render_embeds {r : ContractReport} (hr : d.reportOn p influence c = some r) :
    (r.rename ρ).render p' = r.render p := by
  obtain ⟨contract, -, -, hmessage, hresolved⟩ := exists_resolved_of_reportOn hp hr
  have hrender := ContractReport.render?_eq_of_mem_message (a := d.analysis p influence) hmessage
    hresolved
  have hrenamed : (r.rename ρ).message = r.message.map (Fragment.rename ρ) := rfl
  have htexts : r.message.map (Fragment.render p' ∘ Fragment.rename ρ)
      = r.message.map (Fragment.render p) :=
    List.map_congr_left fun fragment hmem => Fragment.render_embeds h (hrender fragment hmem)
  rw [ContractReport.render, ContractReport.render, hrenamed, List.map_map, htexts]

/-- A finding keeps all its texts; only the numbers of nodes may change. -/
theorem finding_embeds {r : ContractReport} (hr : d.reportOn p influence c = some r) :
    d.finding p' (r.rename ρ) = { d.finding p r with
      locations := r.entries.map fun e =>
        { Location.ofNode p e.function e.node with node := (ρ.on e.node).index } } := by
  obtain ⟨contract, -, -, -, hresolved⟩ := exists_resolved_of_reportOn hp hr
  have hrenamed : (r.rename ρ).entries = r.entries.map (Entry.rename ρ) := rfl
  have hlocations : (r.rename ρ).entries.map (fun e => Location.ofNode p' e.function e.node)
      = r.entries.map fun e =>
          { Location.ofNode p e.function e.node with node := (ρ.on e.node).index } := by
    rw [hrenamed, List.map_map]
    refine List.map_congr_left fun e he => ?_
    obtain ⟨node, hplace⟩ := (hresolved e he).located
    obtain ⟨function, hfun, -⟩ := hplace.listed
    rw [Function.comp_apply, e.function_rename, e.node_rename]
    exact Location.ofNode_embeds h hp hfun hplace.found
  have hfunctions : (r.rename ρ).entries.map (fun e => p'.functionName e.function)
      = r.entries.map fun e => p.functionName e.function := by
    rw [hrenamed, List.map_map]
    refine List.map_congr_left fun e he => ?_
    obtain ⟨node, hplace⟩ := (hresolved e he).located
    obtain ⟨function, hfun, -⟩ := hplace.listed
    rw [Function.comp_apply, e.function_rename]
    exact h.functionName_eq hfun
  have hvariables : ((r.rename ρ).entries.flatMap Entry.involved).map p'.variableName
      = (r.entries.flatMap Entry.involved).map p.variableName := by
    rw [hrenamed, List.flatMap_map, List.map_flatMap, List.map_flatMap]
    refine List.flatMap_congr fun e he => ?_
    rw [e.involved_rename, List.map_map]
    refine List.map_congr_left fun v hv => ?_
    obtain ⟨x, hx, -⟩ := Option.map_eq_some_iff.mp ((hresolved e he).variableName?_eq v hv)
    exact h.variableName_eq hx
  rw [finding, d.render_embeds h hp hr, hlocations, hfunctions, hvariables]
  rfl

end Whole

end Detector

end PriceTaint
