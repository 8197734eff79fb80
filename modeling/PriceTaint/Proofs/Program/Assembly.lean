/-
Programs that are put together step by step are valid.

A construction is a list of steps, each of which may use the handles that earlier steps
have given back. Such a handle always points inside its arena, and from then on it stays
there: arenas grow and never shrink. So it is enough to say what makes each part of a
program sound, to see that a sound part stays sound while the program grows, and to look
in each step at the parts that it makes or changes.

A step that makes a function also changes its contract, and a step that makes a node also
changes its function. These are the places where both parts have to fit together: the
function is declared where it belongs, and the node is listed there, and listed once.
-/
import Mathlib.Data.List.Induction
import PriceTaint.Program.Assembly
import PriceTaint.Proofs.Influence.Closure
import PriceTaint.Proofs.Program.References

set_option autoImplicit false

namespace PriceTaint

/-! ## Handles that steps take and give -/

/-- The handle is passed to a part of a node. -/
inductive NodePart.Takes : NodePart → {kind : Kind} → Handle kind → Prop where
  | assigned {vs : List VariableId} {v : VariableId} (h : v ∈ vs) : Takes (.assigns vs) v
  | written {vs : List VariableId} {v : VariableId} (h : v ∈ vs) : Takes (.writes vs) v
  | read {vs : List VariableId} {v : VariableId} (h : v ∈ vs) : Takes (.reads vs) v
  | called (c : CallId) : Takes (.call c) c
  | internal (f : FunctionId) : Takes (.internal (.function f)) f

/-- The call refers to the handle. -/
inductive Call.Uses (c : Call) : {kind : Kind} → Handle kind → Prop where
  | target {f : FunctionId} (h : c.callee = .resolved (.function f)) : Uses c f
  | guard {f : FunctionId} (h : c.callee = .resolved (.modifier f)) : Uses c f
  | argument {a : Argument} {v : VariableId} (ha : a ∈ c.arguments) (h : a.operand = .variable v) :
      Uses c v
  | wrapped {a : Argument} {v : VariableId} (ha : a ∈ c.arguments) (h : a.operand = .wrapped v) :
      Uses c v

namespace BuildStep

/-- The handle is passed to the step. -/
inductive Takes : BuildStep → {kind : Kind} → Handle kind → Prop where
  | functionHome (c : ContractId) (name signature : String) (what : FunctionKind) :
      Takes (.function c name signature what) c
  | modifierHome (c : ContractId) (name : String) : Takes (.modifier c name) c
  | heir (c : ContractId) (f : FunctionId) : Takes (.inherit c f) c
  | inherited (c : ContractId) (f : FunctionId) : Takes (.inherit c f) f
  | returning (f : FunctionId) (v : VariableId) : Takes (.returns f v) f
  | returned (f : FunctionId) (v : VariableId) : Takes (.returns f v) v
  | used {text : String} {callee : Callee} {arguments : List Argument} {kind : Kind}
      {h : Handle kind} (huses : Call.Uses ⟨callee, arguments, text⟩ h) :
      Takes (.call text callee arguments) h
  | owner (f : FunctionId) (text : String) (parts : List NodePart) : Takes (.node f text parts) f
  | part {f : FunctionId} {text : String} {parts : List NodePart} {part : NodePart} {kind : Kind}
      {h : Handle kind} (hpart : part ∈ parts) (htakes : part.Takes h) :
      Takes (.node f text parts) h

/-- The kind of part that the step adds to the program. -/
def adds : BuildStep → Option Kind
  | .contract _ _ => some .contract
  | .function _ _ _ _ => some .function
  | .modifier _ _ => some .function
  | .inherit _ _ => none
  | .variable _ _ _ => some .variable
  | .returns _ _ => none
  | .call _ _ _ => some .call
  | .node _ _ _ => some .node

/-- On this program, the step gives the handle back. -/
def Gives (p : Program) (s : BuildStep) {kind : Kind} (h : Handle kind) : Prop :=
  s.adds = some kind ∧ (s.run p).2 = some h.index

end BuildStep

/-- The program that a construction leads to. -/
def Program.built (steps : List BuildStep) : Program := (BuildStep.runAll {} steps).1

namespace BuildStep

/-- One of the steps has given the handle back. -/
def Given (steps : List BuildStep) {kind : Kind} (h : Handle kind) : Prop :=
  ∃ before s after, steps = before ++ s :: after ∧ s.Gives (.built before) h

/-- Every handle that is passed to a step was given back by an earlier one. -/
def Grounded (steps : List BuildStep) : Prop :=
  ∀ before s after, steps = before ++ s :: after →
    ∀ {kind : Kind} (h : Handle kind), s.Takes h → Given before h

/-! ## What one step adds -/

theorem run_snd (p : Program) (s : BuildStep) : (s.run p).2 = s.adds.map p.count := by
  cases s <;> rfl

theorem count_run (p : Program) (s : BuildStep) (kind : Kind) :
    (s.run p).1.count kind = p.count kind + if s.adds = some kind then 1 else 0 := by
  cases s <;> cases kind <;>
    simp [run, adds, Program.count, Program.addContract, Program.addFunction, Program.addModifier,
      Program.inherit, Program.addVariable, Program.addReturn, Program.addCall, Program.addNode]

/-- A construction is run up to its last step, and then that one. -/
theorem runAll_append (p : Program) (steps : List BuildStep) (s : BuildStep) :
    (runAll p (steps ++ [s])).1 = (s.run (runAll p steps).1).1 := by
  induction steps generalizing p with
  | nil => rfl
  | cons first steps ih => exact ih (first.run p).1

end BuildStep

theorem Program.built_append (steps : List BuildStep) (s : BuildStep) :
    built (steps ++ [s]) = (s.run (built steps)).1 :=
  BuildStep.runAll_append {} steps s

namespace BuildStep

section Given

variable {steps : List BuildStep} {s : BuildStep} {kind : Kind}

/-- Where a construction is cut at one of its steps, that step is the last one, or all that
comes before the last one is cut there. -/
theorem cut_append_singleton {before after : List BuildStep} {t : BuildStep}
    (h : steps ++ [s] = before ++ t :: after) :
    (before = steps ∧ t = s) ∨ ∃ rest, steps = before ++ t :: rest := by
  rcases List.eq_nil_or_concat after with rfl | ⟨rest, last, rfl⟩
  · obtain ⟨rfl, hlast⟩ := List.append_inj' h rfl
    cases hlast
    exact .inl ⟨rfl, rfl⟩
  · rw [List.concat_eq_append, ← List.cons_append, ← List.append_assoc] at h
    exact .inr ⟨rest, (List.append_inj' h rfl).1⟩

/-- The last step gives a handle, or an earlier one did. -/
theorem given_append_iff (h : Handle kind) :
    Given (steps ++ [s]) h ↔ Given steps h ∨ s.Gives (.built steps) h := by
  constructor
  · rintro ⟨before, t, after, heq, hgives⟩
    rcases cut_append_singleton heq with ⟨rfl, rfl⟩ | ⟨rest, rfl⟩
    · exact .inr hgives
    · exact .inl ⟨before, t, rest, rfl, hgives⟩
  · rintro (⟨before, t, after, rfl, hgives⟩ | hgives)
    · exact ⟨before, t, after ++ [s], by simp, hgives⟩
    · exact ⟨steps, s, [], rfl, hgives⟩

/-- The handles that have been given are those that point inside their arenas. -/
theorem given_iff (steps : List BuildStep) (h : Handle kind) :
    Given steps h ↔ h.index < (Program.built steps).count kind := by
  induction steps using List.reverseRecOn with
  | nil =>
    have hempty : (Program.built []).count kind = 0 := by cases kind <;> rfl
    rw [hempty]
    refine iff_of_false ?_ (Nat.not_lt_zero _)
    rintro ⟨before, s, after, heq, -⟩
    simp at heq
  | append_singleton steps s ih =>
    rw [given_append_iff, ih, Program.built_append, count_run, Gives, run_snd]
    by_cases hadds : s.adds = some kind
    · simp only [hadds, if_true, Option.map_some, Option.some.injEq, true_and]
      omega
    · rw [if_neg hadds, Nat.add_zero, or_iff_left fun hgives => hadds hgives.1]

/-- A construction that is grounded is so up to each of its steps. -/
theorem Grounded.of_isPrefix {before : List BuildStep} (h : Grounded steps)
    (hbefore : before <+: steps) : Grounded before := by
  obtain ⟨rest, rfl⟩ := hbefore
  intro first t after heq kind handle htakes
  exact h first t (after ++ rest) (by rw [heq]; simp) handle htakes

/-- A grounded construction may go on with any step that takes handles of its program. -/
theorem grounded_append_iff :
    Grounded (steps ++ [s]) ↔ Grounded steps ∧ ∀ {kind : Kind} (h : Handle kind),
      s.Takes h → h.index < (Program.built steps).count kind := by
  constructor
  · intro h
    refine ⟨h.of_isPrefix ⟨[s], rfl⟩, fun handle htakes => ?_⟩
    exact (given_iff steps handle).mp (h steps s [] rfl handle htakes)
  · rintro ⟨h, hlast⟩ before t after heq kind handle htakes
    rcases cut_append_singleton heq with ⟨rfl, rfl⟩ | ⟨rest, rfl⟩
    · exact (given_iff before handle).mpr (hlast handle htakes)
    · exact h before t rest rfl handle htakes

end Given

end BuildStep

/-! ## Sound parts -/

/-- The node refers to the handle, apart from its owner. -/
inductive Node.Uses (n : Node) : {kind : Kind} → Handle kind → Prop where
  | called {c : CallId} (h : c ∈ n.calls) : Uses n c
  | internal {f : FunctionId} (h : .function f ∈ n.internalCalls) : Uses n f
  | written {v : VariableId} (h : v ∈ n.written) : Uses n v
  | read {v : VariableId} (h : v ∈ n.read) : Uses n v

/-- The functions of the contract are there, and those that it declares belong to it and
can be called on it. -/
structure Contract.SoundIn (p : Program) (id : ContractId) (c : Contract) : Prop where
  callable : ∀ f ∈ c.functions, f.index < p.count .function
  declared : ∀ f ∈ c.declared, ∃ function, p.functionAt? f = some function
    ∧ function.contract = id
  sublist : c.declared.Sublist c.functions

/-- The contract and the returned variables of the function are there, and the nodes that
it lists belong to it. -/
structure Function.SoundIn (p : Program) (id : FunctionId) (f : Function) : Prop where
  home : f.contract.index < p.count .contract
  listed : ∀ n ∈ f.nodes, ∃ node, p.nodeAt? n = some node ∧ node.owner = id
  returned : ∀ v ∈ f.returns, v.index < p.count .variable

/-- What the node refers to is there, and its owner lists it once. -/
structure Node.SoundIn (p : Program) (id : NodeId) (n : Node) : Prop where
  owner : ∃ f, p.functionAt? n.owner = some f ∧ f.nodes.count id = 1
  uses : ∀ {kind : Kind} (h : Handle kind), n.Uses h → h.index < p.count kind

/-- What the call refers to is there. -/
structure Call.SoundIn (p : Program) (c : Call) : Prop where
  uses : ∀ {kind : Kind} (h : Handle kind), c.Uses h → h.index < p.count kind

namespace Program

/-- All parts of the program are sound. -/
structure Sound (p : Program) : Prop where
  contracts : ∀ {id c}, p.contractAt? id = some c → c.SoundIn p id
  functions : ∀ {id f}, p.functionAt? id = some f → f.SoundIn p id
  nodes : ∀ {id n}, p.nodeAt? id = some n → n.SoundIn p id
  calls : ∀ {id c}, p.callAt? id = some c → c.SoundIn p

/-- What does not change while a program grows: all parts stay where they are, functions
stay with their contracts, and nodes as they are and listed as often as they were. -/
structure Grows (p q : Program) : Prop where
  count : ∀ kind, p.count kind ≤ q.count kind
  function : ∀ {id f}, p.functionAt? id = some f → ∃ f', q.functionAt? id = some f'
    ∧ f'.contract = f.contract
    ∧ ∀ n : NodeId, n.index < p.count .node → f'.nodes.count n = f.nodes.count n
  node : ∀ {id n}, p.nodeAt? id = some n → q.nodeAt? id = some n

theorem lt_count_of_functionAt? {p : Program} {id : FunctionId} {f : Function}
    (h : p.functionAt? id = some f) : id.index < p.count .function :=
  (Array.getElem?_eq_some_iff.mp h).1

theorem lt_count_of_nodeAt? {p : Program} {id : NodeId} {n : Node} (h : p.nodeAt? id = some n) :
    id.index < p.count .node :=
  (Array.getElem?_eq_some_iff.mp h).1

end Program

section Growth

variable {p q : Program}

theorem Contract.SoundIn.mono {id : ContractId} {c : Contract} (h : c.SoundIn p id)
    (hg : p.Grows q) : c.SoundIn q id where
  callable f hf := Nat.lt_of_lt_of_le (h.callable f hf) (hg.count _)
  declared f hf := by
    obtain ⟨function, hfun, hhome⟩ := h.declared f hf
    obtain ⟨function', hfun', hhome', -⟩ := hg.function hfun
    exact ⟨function', hfun', hhome'.trans hhome⟩
  sublist := h.sublist

theorem Function.SoundIn.mono {id : FunctionId} {f : Function} (h : f.SoundIn p id)
    (hg : p.Grows q) : f.SoundIn q id where
  home := Nat.lt_of_lt_of_le h.home (hg.count _)
  listed n hn := by
    obtain ⟨node, hnode, howner⟩ := h.listed n hn
    exact ⟨node, hg.node hnode, howner⟩
  returned v hv := Nat.lt_of_lt_of_le (h.returned v hv) (hg.count _)

theorem Node.SoundIn.mono {id : NodeId} {n : Node} (h : n.SoundIn p id)
    (hn : p.nodeAt? id = some n) (hg : p.Grows q) : n.SoundIn q id where
  owner := by
    obtain ⟨f, hf, honce⟩ := h.owner
    obtain ⟨f', hf', -, hcount⟩ := hg.function hf
    exact ⟨f', hf', (hcount id (Program.lt_count_of_nodeAt? hn)).trans honce⟩
  uses handle huses := Nat.lt_of_lt_of_le (h.uses handle huses) (hg.count _)

theorem Call.SoundIn.mono {c : Call} (h : c.SoundIn p) (hg : p.Grows q) : c.SoundIn q where
  uses handle huses := Nat.lt_of_lt_of_le (h.uses handle huses) (hg.count _)

/-- A program that has grown is sound if those of its parts are that are new or have
changed. -/
theorem Program.Sound.of_grows (hp : p.Sound) (hg : p.Grows q)
    (hcontracts : ∀ {id c}, q.contractAt? id = some c →
      p.contractAt? id = some c ∨ c.SoundIn q id)
    (hfunctions : ∀ {id f}, q.functionAt? id = some f →
      p.functionAt? id = some f ∨ f.SoundIn q id)
    (hnodes : ∀ {id n}, q.nodeAt? id = some n → p.nodeAt? id = some n ∨ n.SoundIn q id)
    (hcalls : ∀ {id c}, q.callAt? id = some c → p.callAt? id = some c ∨ c.SoundIn q) :
    q.Sound where
  contracts hc := (hcontracts hc).elim (fun hold => (hp.contracts hold).mono hg) id
  functions hf := (hfunctions hf).elim (fun hold => (hp.functions hold).mono hg) id
  nodes hn := (hnodes hn).elim (fun hold => (hp.nodes hold).mono hold hg) id
  calls hc := (hcalls hc).elim (fun hold => (hp.calls hold).mono hg) id

end Growth

/-! ## Every step keeps a program sound -/

/-- A new node is listed by its owner, and all other nodes as often as before. -/
theorem Program.grows_addNode (p : Program) (n : Node) : p.Grows (p.addNode n).1 where
  count kind := by
    cases kind <;> simp [count, addNode]
  function {id f} hf := by
    refine ⟨_, Array.getElem?_modify_of_some _ n.owner.index hf, ?_, fun m hm => ?_⟩
    · split <;> rfl
    · have hnew : (⟨p.nodes.size⟩ : NodeId) ≠ m := by
        rintro rfl
        exact Nat.lt_irrefl _ hm
      split
      · rw [List.count_append, List.count_singleton, beq_false_of_ne hnew]
        rfl
      · rfl
  node hn := Array.getElem?_push_of_some hn

namespace BuildStep

/-- No step takes anything away. -/
theorem grows_run (p : Program) (s : BuildStep) : p.Grows (s.run p).1 where
  count kind := by
    rw [count_run]
    exact Nat.le_add_right _ _
  function {id f} hf := by
    cases s with
    | function owner name signature what =>
      exact ⟨f, Array.getElem?_push_of_some hf, rfl, fun _ _ => rfl⟩
    | modifier owner name => exact ⟨f, Array.getElem?_push_of_some hf, rfl, fun _ _ => rfl⟩
    | returns g v =>
      refine ⟨_, Array.getElem?_modify_of_some _ g.index hf, ?_, fun n _ => ?_⟩ <;> split <;> rfl
    | node owner text parts => exact (p.grows_addNode _).function hf
    | _ => exact ⟨f, hf, rfl, fun _ _ => rfl⟩
  node {id n} hn := by
    cases s with
    | node owner text parts => exact Array.getElem?_push_of_some hn
    | _ => exact hn

end BuildStep

namespace Program

variable {p : Program}

theorem sound_empty : Sound {} where
  contracts h := by simp [contractAt?] at h
  functions h := by simp [functionAt?] at h
  nodes h := by simp [nodeAt?] at h
  calls h := by simp [callAt?] at h

theorem Sound.addContract (hp : p.Sound) (name : String) (isInterface : Bool) :
    (p.addContract name isInterface).1.Sound := by
  refine hp.of_grows (BuildStep.grows_run p (.contract name isInterface)) ?_ .inl .inl .inl
  intro id c hc
  rcases Array.getElem?_push_cases hc with hold | ⟨-, rfl⟩
  · exact .inl hold
  · exact .inr ⟨List.forall_mem_nil _, List.forall_mem_nil _, .refl _⟩

/-- The new function is declared by the contract it belongs to. -/
theorem Sound.addFunction (hp : p.Sound) {c : ContractId} (hc : c.index < p.count .contract)
    (name signature : String) (what : FunctionKind) :
    (p.addFunction c name signature what).1.Sound := by
  have hg := BuildStep.grows_run p (.function c name signature what)
  have hnew : (p.addFunction c name signature what).1.functionAt? ⟨p.functions.size⟩
      = some { name, signature, kind := what, contract := c } := Array.getElem?_push_size
  refine hp.of_grows hg ?_ ?_ .inl .inl
  · intro id contract hcontract
    rcases Array.getElem?_modify_cases hcontract with hold | ⟨hid, old, hold, rfl⟩
    · exact .inl hold
    · obtain rfl : c = id := congrArg Handle.mk hid
      have hsound := (hp.contracts (show p.contractAt? c = some old from hold)).mono hg
      right
      constructor
      · exact List.forall_mem_snoc hsound.callable (lt_count_of_functionAt? hnew)
      · exact List.forall_mem_snoc hsound.declared ⟨_, hnew, rfl⟩
      · exact hsound.sublist.append (.refl _)
  · intro id f hf
    rcases Array.getElem?_push_cases hf with hold | ⟨-, rfl⟩
    · exact .inl hold
    · exact .inr ⟨Nat.lt_of_lt_of_le hc (hg.count _), List.forall_mem_nil _,
        List.forall_mem_nil _⟩

theorem Sound.inherit (hp : p.Sound) (c : ContractId) {f : FunctionId}
    (hf : f.index < p.count .function) : (p.inherit c f).Sound := by
  have hg := BuildStep.grows_run p (.inherit c f)
  refine hp.of_grows hg ?_ .inl .inl .inl
  intro id contract hcontract
  rcases Array.getElem?_modify_cases hcontract with hold | ⟨-, old, hold, rfl⟩
  · exact .inl hold
  · have hsound := (hp.contracts (show p.contractAt? id = some old from hold)).mono hg
    have hin : f.index < (p.inherit c f).count .function := Nat.lt_of_lt_of_le hf (hg.count _)
    exact .inr ⟨List.forall_mem_snoc hsound.callable hin, hsound.declared,
      hsound.sublist.trans (List.sublist_append_left _ _)⟩

theorem Sound.addVariable (hp : p.Sound) (name typeName : String) (storage : Storage) :
    (p.addVariable name typeName storage).1.Sound :=
  hp.of_grows (BuildStep.grows_run p (.variable name typeName storage)) .inl .inl .inl .inl

theorem Sound.addReturn (hp : p.Sound) (f : FunctionId) {v : VariableId}
    (hv : v.index < p.count .variable) : (p.addReturn f v).Sound := by
  have hg := BuildStep.grows_run p (.returns f v)
  refine hp.of_grows hg .inl ?_ .inl .inl
  intro id function hfunction
  rcases Array.getElem?_modify_cases hfunction with hold | ⟨-, old, hold, rfl⟩
  · exact .inl hold
  · have hsound := (hp.functions (show p.functionAt? id = some old from hold)).mono hg
    have hin : v.index < (p.addReturn f v).count .variable := Nat.lt_of_lt_of_le hv (hg.count _)
    exact .inr ⟨hsound.home, hsound.listed, List.forall_mem_snoc hsound.returned hin⟩

theorem Sound.addCall (hp : p.Sound) {text : String} {callee : Callee}
    {arguments : List Argument} (hc : Call.SoundIn p ⟨callee, arguments, text⟩) :
    (p.addCall text callee arguments).1.Sound := by
  have hg := BuildStep.grows_run p (.call text callee arguments)
  refine hp.of_grows hg .inl .inl .inl ?_
  intro id c hcall
  rcases Array.getElem?_push_cases hcall with hold | ⟨-, rfl⟩
  · exact .inl hold
  · exact .inr (hc.mono hg)

/-- The new node is listed once, and by its owner. -/
theorem Sound.addNode (hp : p.Sound) {n : Node} (howner : n.owner.index < p.count .function)
    (huses : ∀ {kind : Kind} (h : Handle kind), n.Uses h → h.index < p.count kind) :
    (p.addNode n).1.Sound := by
  have hg := p.grows_addNode n
  have hnew : (p.addNode n).1.nodeAt? ⟨p.nodes.size⟩ = some n := Array.getElem?_push_size
  refine hp.of_grows hg .inl ?_ ?_ .inl
  · intro id function hfunction
    rcases Array.getElem?_modify_cases hfunction with hold | ⟨hid, old, hold, rfl⟩
    · exact .inl hold
    · have hsound := (hp.functions (show p.functionAt? id = some old from hold)).mono hg
      exact .inr ⟨hsound.home, List.forall_mem_snoc hsound.listed ⟨n, hnew, congrArg Handle.mk hid⟩,
        hsound.returned⟩
  · intro id node hnode
    rcases Array.getElem?_push_cases hnode with hold | ⟨hid, rfl⟩
    · exact .inl hold
    · obtain rfl : id = ⟨p.nodes.size⟩ := congrArg Handle.mk hid
      obtain ⟨f, hf⟩ := Array.exists_getElem?_of_lt howner
      -- the owner has not listed the node before, for it lists only nodes that are there
      have hnot : (⟨p.nodes.size⟩ : NodeId) ∉ f.nodes := by
        intro hmem
        obtain ⟨old, hold, -⟩ := (hp.functions hf).listed _ hmem
        exact Nat.lt_irrefl _ (lt_count_of_nodeAt? hold)
      have hlists := Array.getElem?_modify_of_some
        (fun f : Function => { f with nodes := f.nodes ++ [⟨p.nodes.size⟩] }) node.owner.index hf
      rw [if_pos rfl] at hlists
      refine .inr ⟨⟨_, hlists, ?_⟩, fun h huse => Nat.lt_of_lt_of_le (huses h huse) (hg.count _)⟩
      rw [List.count_append, List.count_eq_zero_of_not_mem hnot, List.count_singleton_self]

end Program

namespace Node

/-- What a node refers to after one more part was said about it, it did before, or the part
takes it. -/
theorem uses_extend {p : Program} {n : Node} {part : NodePart} {kind : Kind} {h : Handle kind}
    (huses : (extend p n part).Uses h) : n.Uses h ∨ part.Takes h := by
  cases huses with
  | called hc =>
    cases part with
    | call id =>
      rcases List.mem_append.mp hc with hc | hc
      · exact .inl (.called hc)
      · obtain rfl := List.mem_singleton.mp hc
        exact .inr (.called _)
    | _ => exact .inl (.called hc)
  | internal hf =>
    cases part with
    | internal call =>
      rcases List.mem_append.mp hf with hf | hf
      · exact .inl (.internal hf)
      · obtain rfl := List.mem_singleton.mp hf
        exact .inr (.internal _)
    | _ => exact .inl (.internal hf)
  | written hv =>
    cases part with
    | assigns vs => exact (List.mem_append.mp hv).imp .written .assigned
    | writes vs => exact (List.mem_append.mp hv).imp .written .written
    | _ => exact .inl (.written hv)
  | read hv =>
    cases part with
    | reads vs => exact (List.mem_append.mp hv).imp .read .read
    | _ => exact .inl (.read hv)

theorem uses_foldl_extend {p : Program} {n : Node} {parts : List NodePart} {kind : Kind}
    {h : Handle kind} (huses : (parts.foldl (extend p) n).Uses h) :
    n.Uses h ∨ ∃ part ∈ parts, part.Takes h := by
  induction parts generalizing n with
  | nil => exact .inl huses
  | cons part parts ih =>
    rcases ih huses with huses | ⟨later, hlater, htakes⟩
    · rcases uses_extend huses with huses | htakes
      · exact .inl huses
      · exact .inr ⟨part, List.mem_cons_self, htakes⟩
    · exact .inr ⟨later, List.mem_cons_of_mem part hlater, htakes⟩

/-- A node refers to what its parts take, and to nothing else. -/
theorem exists_takes_of_uses_ofParts {p : Program} {owner : FunctionId} {text : String}
    {parts : List NodePart} {kind : Kind} {h : Handle kind}
    (huses : (ofParts p owner text parts).Uses h) : ∃ part ∈ parts, part.Takes h := by
  rcases uses_foldl_extend huses with hnone | hpart
  · -- before its first part, a node refers to nothing
    cases hnone with
    | called hc => exact absurd hc List.not_mem_nil
    | internal hf => exact absurd hf List.not_mem_nil
    | written hv => exact absurd hv List.not_mem_nil
    | read hv => exact absurd hv List.not_mem_nil
  · exact hpart

theorem owner_ofParts (p : Program) (owner : FunctionId) (text : String) (parts : List NodePart) :
    (ofParts p owner text parts).owner = owner := by
  have hfold : ∀ n : Node, (parts.foldl (extend p) n).owner = n.owner := by
    induction parts with
    | nil => exact fun _ => rfl
    | cons part parts ih =>
      intro n
      rw [List.foldl_cons, ih]
      cases part <;> rfl
  exact hfold _

end Node

namespace BuildStep

/-- A step that takes handles of the program only keeps the program sound. -/
theorem sound_run {p : Program} (hp : p.Sound) {s : BuildStep}
    (htakes : ∀ {kind : Kind} (h : Handle kind), s.Takes h → h.index < p.count kind) :
    (s.run p).1.Sound := by
  cases s with
  | contract name isInterface => exact hp.addContract name isInterface
  | function owner name signature what =>
    exact hp.addFunction (htakes owner (.functionHome ..)) name signature what
  | modifier owner name => exact hp.addFunction (htakes owner (.modifierHome ..)) _ _ _
  | inherit heir f => exact hp.inherit heir (htakes f (.inherited ..))
  | «variable» name typeName storage => exact hp.addVariable name typeName storage
  | returns f v => exact hp.addReturn f (htakes v (.returned ..))
  | call text callee arguments => exact hp.addCall ⟨fun h huses => htakes h (.used huses)⟩
  | node owner text parts =>
    apply hp.addNode
    · rw [Node.owner_ofParts]
      exact htakes owner (.owner ..)
    · intro kind h huses
      obtain ⟨part, hpart, hpart'⟩ := Node.exists_takes_of_uses_ofParts huses
      exact htakes h (.part hpart hpart')

/-- The program of a grounded construction is sound. -/
theorem Grounded.sound {steps : List BuildStep} (h : Grounded steps) :
    (Program.built steps).Sound := by
  induction steps using List.reverseRecOn with
  | nil => exact Program.sound_empty
  | append_singleton steps s ih =>
    obtain ⟨hsteps, hlast⟩ := grounded_append_iff.mp h
    rw [Program.built_append]
    exact sound_run (ih hsteps) hlast

end BuildStep

/-! ## Sound programs are valid -/

theorem Fault.firstOf_eq_ok {faults : List Fault} (h : ∀ fault, fault ∉ faults) :
    firstOf faults = .ok () := by
  rw [List.eq_nil_iff_forall_not_mem.mpr h]
  rfl

namespace Program

variable {p : Program}

theorem Sound.lt_count (hp : p.Sound) {holder : Holder} {kind : Kind} {h : Handle kind}
    (href : p.Refers holder h) : h.index < p.count kind := by
  cases href with
  | callable hc hf => exact (hp.contracts hc).callable _ hf
  | declared hc hf =>
    obtain ⟨function, hfun, -⟩ := (hp.contracts hc).declared _ hf
    exact lt_count_of_functionAt? hfun
  | home hf => exact (hp.functions hf).home
  | listed hf hn =>
    obtain ⟨node, hnode, -⟩ := (hp.functions hf).listed _ hn
    exact lt_count_of_nodeAt? hnode
  | returned hf hv => exact (hp.functions hf).returned _ hv
  | owner hn =>
    obtain ⟨f, hf, -⟩ := (hp.nodes hn).owner
    exact lt_count_of_functionAt? hf
  | called hn hc => exact (hp.nodes hn).uses _ (.called hc)
  | internal hn hf => exact (hp.nodes hn).uses _ (.internal hf)
  | written hn hv => exact (hp.nodes hn).uses _ (.written hv)
  | read hn hv => exact (hp.nodes hn).uses _ (.read hv)
  | target hc hf => exact (hp.calls hc).uses _ (.target hf)
  | guard hc hf => exact (hp.calls hc).uses _ (.guard hf)
  | argument hc ha hv => exact (hp.calls hc).uses _ (.argument ha hv)
  | wrapped hc ha hv => exact (hp.calls hc).uses _ (.wrapped ha hv)

theorem Sound.not_hasFault (hp : p.Sound) (fault : Fault) : ¬ p.HasFault fault := by
  intro hfault
  cases hfault with
  | dangling href hout => exact Nat.not_lt.mpr hout (hp.lt_count href)
  | nodeOwner hf hn hnode howner =>
    obtain ⟨node, hnode', rfl⟩ := (hp.functions hf).listed _ hn
    cases hnode.symm.trans hnode'
    exact howner rfl
  | functionOwner hc hf hfun howner =>
    obtain ⟨function, hfun', rfl⟩ := (hp.contracts hc).declared _ hf
    cases hfun.symm.trans hfun'
    exact howner rfl

theorem Sound.validate_eq_ok (hp : p.Sound) : p.validate = .ok () :=
  Fault.firstOf_eq_ok fun fault hfault => hp.not_hasFault fault ((p.mem_faults_iff fault).mp hfault)

/-- Every node is listed once by its owner, and by no other function. -/
theorem Sound.exists_owner (hp : p.Sound) {n : NodeId} (hn : n.index < p.count .node) :
    ∃ f function, p.functionAt? f = some function ∧ function.nodes.count n = 1
      ∧ ∀ g other, p.functionAt? g = some other → n ∈ other.nodes → g = f := by
  obtain ⟨node, hnode⟩ := Array.exists_getElem?_of_lt hn
  obtain ⟨function, hfun, honce⟩ := (hp.nodes hnode).owner
  refine ⟨node.owner, function, hfun, honce, ?_⟩
  intro g other hother hlisted
  obtain ⟨node', hnode', howner⟩ := (hp.functions hother).listed n hlisted
  cases hnode.symm.trans hnode'
  exact howner.symm

end Program

/-- A sound program makes a valid document with all edges that stay inside it. -/
theorem Document.validate_eq_ok_of_sound {d : Document} (hp : d.program.Sound)
    (hedges : ∀ e ∈ d.influence.toList, e.scope.index < d.program.count .function
      ∧ e.target.index < d.program.count .variable
      ∧ e.source.index < d.program.count .variable) : d.validate = .ok () := by
  apply Fault.firstOf_eq_ok
  intro fault hfault
  cases (d.mem_faults_iff fault).mp hfault with
  | program h => exact hp.not_hasFault fault h
  | scope he hout => exact Nat.not_lt.mpr hout (hedges _ he).1
  | endpoint he hv hout =>
    rcases hv with rfl | rfl
    · exact Nat.not_lt.mpr hout (hedges _ he).2.1
    · exact Nat.not_lt.mpr hout (hedges _ he).2.2

namespace BuildStep

/-- **Constructions are valid at every step.** Whenever all handles passed to a construction
were given back by it before, its program validates after each of its steps. By then the
functions that a contract declares are among those that can be called on it, in the same
order, each node is listed by one function and there once, and dependency edges between
handles given so far complete the program to a valid document. -/
theorem Grounded.validate_built {steps before : List BuildStep} (h : Grounded steps)
    (hbefore : before <+: steps) :
    (Program.built before).validate = .ok ()
      ∧ (∀ c ∈ (Program.built before).contracts, c.declared.Sublist c.functions)
      ∧ (∀ n : NodeId, n.index < (Program.built before).count .node →
          ∃ f function, (Program.built before).functionAt? f = some function
            ∧ function.nodes.count n = 1
            ∧ ∀ g other, (Program.built before).functionAt? g = some other →
                n ∈ other.nodes → g = f)
      ∧ ∀ edges : List Edge,
          (∀ e ∈ edges, Given before e.scope ∧ Given before e.target ∧ Given before e.source) →
          (Document.mk (Program.built before) (.ofList edges)).validate = .ok () := by
  have hsound := (h.of_isPrefix hbefore).sound
  refine ⟨hsound.validate_eq_ok, ?_, fun n hn => hsound.exists_owner hn, ?_⟩
  · intro c hc
    obtain ⟨i, hi⟩ := Array.mem_iff_getElem?.mp hc
    exact (hsound.contracts (show _ = some c from hi)).sublist
  · intro edges hedges
    apply Document.validate_eq_ok_of_sound hsound
    intro e he
    simpa only [given_iff] using hedges e ((InfluenceGraph.mem_toList_ofList_iff edges e).mp he)

/-- A vault with one function, which sets a variable to another one. -/
def vault : List BuildStep :=
  [.contract "Vault" false, .function ⟨0⟩ "sync" "sync(uint256)" .function,
    .variable "amount" "uint256" .local, .variable "held" "uint256" .state,
    .node ⟨0⟩ "held = amount" [.assigns [⟨1⟩], .reads [⟨0⟩]]]

theorem grounded_vault : Grounded vault := by
  have hnil : Grounded [] := fun before s after heq => by simp at heq
  have hcontract : Grounded (vault.take 1) := grounded_append_iff.mpr ⟨hnil, by rintro _ _ ⟨⟩⟩
  have hfunction : Grounded (vault.take 2) :=
    grounded_append_iff.mpr ⟨hcontract, by rintro _ _ ⟨⟩; decide⟩
  have hamount : Grounded (vault.take 3) := grounded_append_iff.mpr ⟨hfunction, by rintro _ _ ⟨⟩⟩
  have hheld : Grounded (vault.take 4) := grounded_append_iff.mpr ⟨hamount, by rintro _ _ ⟨⟩⟩
  refine grounded_append_iff.mpr ⟨hheld, ?_⟩
  intro kind h htakes
  cases htakes with
  | owner => decide
  | part hpart htakes =>
    rcases List.mem_pair.mp hpart with rfl | rfl
    · cases htakes with
      | assigned hv => obtain rfl := List.mem_singleton.mp hv; decide
    · cases htakes with
      | read hv => obtain rfl := List.mem_singleton.mp hv; decide

/-- The vault is valid with and without its node, and so is its document in which what is held
depends on the amount. -/
theorem Grounded.validate_built_vault :
    Grounded vault ∧ (Program.built (vault.take 4)).validate = .ok ()
      ∧ (Document.mk (Program.built vault) (.ofList [⟨⟨0⟩, ⟨1⟩, ⟨0⟩⟩])).validate = .ok () := by
  refine ⟨grounded_vault, (grounded_vault.validate_built ⟨_, vault.take_append_drop 4⟩).1,
    (grounded_vault.validate_built ⟨[], vault.append_nil⟩).2.2.2 _ ?_⟩
  simp only [given_iff]
  decide

end BuildStep

end PriceTaint
