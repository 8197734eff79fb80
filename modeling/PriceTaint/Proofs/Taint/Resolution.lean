/-
Reports on valid programs name only what is there.

The handles of an entry come by four routes: from the list of functions of the
contract, from the nodes of a function, from a call that may stand many calls away,
and from the variables of a node, of an argument or of a return. For a program that
validates, each of them is followed to the part it stands for.

Names are looked up again when a report is written out, and there a missing part
would be given a placeholder. The functions that end in a question mark write out the
same texts and give up instead. On the reports of valid programs they never do, and
they come to the same texts, so no placeholder has been put in.
-/
import PriceTaint.Proofs.Program.References
import PriceTaint.Proofs.Taint.Detection

set_option autoImplicit false

namespace PriceTaint

/-! ## Entries whose handles can be followed -/

/-- The read is a call of the program, or the built-in balance. -/
inductive PriceRead.Resolved (p : Program) : PriceRead → Prop where
  | call {id : CallId} {c : Call} (h : p.callAt? id = some c) : Resolved p (.call id)
  | balance : Resolved p (.builtin "balance(address)")

/-- The function `f` is callable on the contract, and `node` is one of its nodes. -/
structure Program.Located (p : Program) (contract : Contract) (f : FunctionId) (n : NodeId)
    (node : Node) : Prop where
  callable : f ∈ contract.functions
  listed : ∃ function, p.functionAt? f = some function ∧ n ∈ function.nodes
  found : p.nodeAt? n = some node
  owner : node.owner = f

/-- Everything that an entry refers to is there and fits together. -/
inductive Entry.Resolved (a : Analysis) (contract : Contract) : Entry → Prop where
  | dependent {flow : DependentFlow} {node : Node}
      (place : a.program.Located contract flow.function flow.node node)
      (read : flow.read.Resolved a.program) (shape : node.shape = .assignment)
      (written : flow.tainted ∈ node.written)
      (tainted : ∃ x, a.program.variableAt? flow.tainted = some x)
      (sink : flow.risk ∈ a.riskVariables flow.function)
      (risk : ∃ x, a.program.variableAt? flow.risk = some x) : Resolved a contract (.dependent flow)
  | returned {flow : ReturnFlow} {node : Node}
      (place : a.program.Located contract flow.function flow.node node)
      (read : flow.read.Resolved a.program) : Resolved a contract (.returned flow)

/-- Reads behind any number of calls are calls of the program. -/
theorem Lens.Makes.resolved {lens : Lens} {p : Program} {depth : Nat} {n : Node}
    {read : PriceRead} (h : lens.Makes p depth n read) : read.Resolved p := by
  cases read with
  | call id =>
    obtain ⟨k, -, -, c, hcall, -⟩ := h
    exact .call hcall
  | builtin name =>
    obtain ⟨-, rfl, -⟩ := h
    exact .balance

theorem Program.Closed.located {p : Program} (hp : p.Closed) {contract : Contract}
    {f : FunctionId} (hf : f ∈ contract.functions) {n : NodeId} {node : Node}
    (hbody : (n, node) ∈ p.bodyOf f) : p.Located contract f n node := by
  obtain ⟨function, hfun, hn, hnode⟩ := (p.mem_bodyOf_iff f n node).mp hbody
  obtain ⟨node', hnode', howner⟩ := hp.listed hfun hn
  have hsame : node' = node := Option.some.inj (hnode'.symm.trans hnode)
  exact ⟨hf, ⟨function, hfun, hn⟩, hnode, hsame ▸ howner⟩

namespace Analysis

variable {a : Analysis}

/-- The variables at the sinks of a function are variables of the program. -/
theorem exists_variable_of_mem_riskVariables (hp : a.program.Closed) {f : FunctionId}
    {v : VariableId} (hv : v ∈ a.riskVariables f) : ∃ x, a.program.variableAt? v = some x := by
  rw [mem_riskVariables_iff] at hv
  cases hsink : a.lens.sink with
  | movedAmounts =>
    -- amounts have been looked up when they were collected
    rw [hsink] at hv
    obtain ⟨-, -, -, -, -, -, -, -, -, -, -, hsome⟩ := hv
    exact Option.isSome_iff_exists.mp hsome
  | returnedValues =>
    rw [hsink] at hv
    rcases hv with ⟨m, n, hbody, -, hread⟩ | ⟨function, hfun, hret⟩
    · obtain ⟨-, -, -, hnode⟩ := (a.program.mem_bodyOf_iff f m n).mp hbody
      exact hp.read hnode hread
    · exact hp.returned hfun hret

/-- All entries that the functions of a contract give rise to are resolved. -/
theorem resolved_of_mem_entries (hp : a.program.Closed) {contract : Contract} {e : Entry}
    (he : e ∈ (a.flowsOf contract.functions).entries) : e.Resolved a contract := by
  rcases (a.mem_entries_flowsOf_iff contract.functions e).mp he with
    ⟨f, hf, flow, hflow, rfl⟩ | ⟨-, f, hf, read, id, hmem, rfl⟩
  · obtain ⟨rfl, hrisk, -, node, hbody, hwritten, hread⟩ :=
      (a.mem_dependentFlows_iff f flow).mp hflow
    have hplace := hp.located hf hbody
    obtain ⟨-, hshape, htainted⟩ := (Lens.mem_footprint_written_iff _ _ _ _ _).mp hwritten
    obtain ⟨-, hmakes⟩ := (Lens.mem_footprint_reads_iff _ _ _ _ _).mp hread
    exact .dependent hplace hmakes.resolved hshape htainted (hp.written hplace.found htainted)
      hrisk (exists_variable_of_mem_riskVariables hp hrisk)
  · obtain ⟨node, hbody, -, hread⟩ := (a.mem_returnReads_iff f read id).mp hmem
    obtain ⟨-, hmakes⟩ := (Lens.mem_footprint_reads_iff _ _ _ _ _).mp hread
    exact .returned (hp.located hf hbody) hmakes.resolved

end Analysis

/-! ## Texts without placeholders -/

namespace Program

def functionName? (p : Program) (id : FunctionId) : Option String :=
  (p.functionAt? id).map (·.name)

def variableName? (p : Program) (id : VariableId) : Option String :=
  (p.variableAt? id).map (·.name)

def callText? (p : Program) (id : CallId) : Option String := (p.callAt? id).map (·.text)

def nodeText? (p : Program) (id : NodeId) : Option String := (p.nodeAt? id).map (·.text)

end Program

/-- The text of a read, if it is there. -/
def PriceRead.render? (p : Program) : PriceRead → Option String
  | .call id => p.callText? id
  | .builtin name => some name

/-- What an entry says about its node, if all it names is there. -/
def Entry.remark? (p : Program) : Entry → Option (List Fragment)
  | .dependent flow => do
    let tainted ← p.variableName? flow.tainted
    let read ← flow.read.render? p
    let risk ← p.variableName? flow.risk
    return [.text " have potential price manipulated risk from ", .text tainted,
      .text " and call ", .text read, .text " which could influence variable:", .text risk,
      .text "\n"]
  | .returned flow => do
    let read ← flow.read.render? p
    return [.text " have potential price manipulated risk in return call ", .text read,
      .text " could influence return value\n"]

/-- The message of an entry, if all it names is there. -/
def Entry.fragments? (p : Program) (e : Entry) : Option (List Fragment) := do
  let function ← p.functionName? e.function
  let remark ← e.remark? p
  return [.text "\t- In function ", .text function, .text "\n", .text "\t\t-- ", .node e.node]
    ++ remark

/-- The text of a fragment, if it is there. -/
def Fragment.render? (p : Program) : Fragment → Option String
  | .text s => some s
  | .node id => p.nodeText? id

namespace ContractReport

/-- The message of a list of entries, if all they name is there. -/
def messageOf? (p : Program) (entries : List Entry) : Option (List Fragment) := do
  let parts ← entries.mapM (Entry.fragments? p)
  return .text header :: parts.flatten

/-- The text of a report, if all its nodes are there. -/
def render? (r : ContractReport) (p : Program) : Option String :=
  (r.message.mapM (Fragment.render? p)).map String.join

end ContractReport

/-- The location of a node, if the node, its function and the contract of the function
are there. -/
def Location.ofNode? (p : Program) (f : FunctionId) (n : NodeId) : Option Location := do
  let function ← p.functionAt? f
  let home ← p.contractAt? function.contract
  let node ← p.nodeAt? n
  return { contract := home.name, function := function.name, node := n.index,
           snippet := some node.text }

/-- The finding that a report becomes, if all it names is there. -/
def Detector.finding? (d : Detector) (p : Program) (r : ContractReport) : Option Finding := do
  let description ← r.render? p
  let locations ← r.entries.mapM fun e => Location.ofNode? p e.function e.node
  let functions ← r.entries.mapM fun e => p.functionName? e.function
  let involved ← (r.entries.flatMap Entry.involved).mapM p.variableName?
  return {
    scannerId := d.profile.id
    severity := d.profile.severity
    confidence := d.profile.confidence
    score := d.profile.confidence.score
    title := "Potential price manipulation in '" ++ r.contractName ++ "'"
    description := description
    locations := locations
    details := some {
      affectedFunctions := functions.eraseDups
      affectedVariables := involved.eraseDups
      affectedContracts := [r.contractName]
      recommendation := some d.profile.recommendation } }

theorem PriceRead.Resolved.render?_eq {p : Program} {read : PriceRead} (h : read.Resolved p) :
    read.render? p = some (read.render p) := by
  cases h with
  | call hc => exact Option.map_eq_some_getD hc _ _
  | balance => rfl

namespace Entry.Resolved

variable {a : Analysis} {contract : Contract} {e : Entry}

/-- The entry stands at a node of a function that is callable on the contract. -/
theorem located (h : e.Resolved a contract) :
    ∃ node, a.program.Located contract e.function e.node node := by
  cases h with
  | dependent place => exact ⟨_, place⟩
  | returned place => exact ⟨_, place⟩

theorem functionName?_eq (h : e.Resolved a contract) :
    a.program.functionName? e.function = some (a.program.functionName e.function) := by
  obtain ⟨node, hplace⟩ := h.located
  obtain ⟨function, hfun, -⟩ := hplace.listed
  exact Option.map_eq_some_getD hfun _ _

theorem variableName?_eq (h : e.Resolved a contract) :
    ∀ v ∈ e.involved, a.program.variableName? v = some (a.program.variableName v) := by
  cases h with
  | dependent _ _ _ _ tainted _ risk =>
    obtain ⟨x, hx⟩ := tainted
    obtain ⟨y, hy⟩ := risk
    rw [involved, List.forall_mem_cons, List.forall_mem_singleton]
    exact ⟨Option.map_eq_some_getD hy _ _, Option.map_eq_some_getD hx _ _⟩
  | returned => simp [involved]

theorem fragments?_eq (h : e.Resolved a contract) :
    e.fragments? a.program = some (e.fragments a.program) := by
  have hfun := h.functionName?_eq
  have hremark : e.remark? a.program = some (e.remark a.program) := by
    have hvariables := h.variableName?_eq
    cases h with
    | dependent _ read =>
      rw [involved, List.forall_mem_cons, List.forall_mem_singleton] at hvariables
      rw [remark?, hvariables.2, read.render?_eq, hvariables.1]
      rfl
    | returned _ read =>
      rw [remark?, read.render?_eq]
      rfl
  rw [fragments?, hfun, hremark]
  rfl

/-- The fragments of an entry are texts, apart from its own node. -/
theorem render?_eq_of_mem_fragments (h : e.Resolved a contract) :
    ∀ fragment ∈ e.fragments a.program,
      fragment.render? a.program = some (fragment.render a.program) := by
  obtain ⟨node, hplace⟩ := h.located
  have hnode : a.program.nodeText? e.node = some (a.program.nodeText e.node) :=
    Option.map_eq_some_getD hplace.found _ _
  cases e with
  | dependent flow => simpa [fragments, remark, Fragment.render?, Fragment.render] using hnode
  | returned flow => simpa [fragments, remark, Fragment.render?, Fragment.render] using hnode

theorem ofNode?_eq (h : e.Resolved a contract) (hp : a.program.Closed) :
    Location.ofNode? a.program e.function e.node
      = some (Location.ofNode a.program e.function e.node) := by
  obtain ⟨node, hplace⟩ := h.located
  obtain ⟨function, hfun, -⟩ := hplace.listed
  obtain ⟨home, hhome⟩ := hp.home hfun
  simp [Location.ofNode?, Location.ofNode, Program.functionName, Program.nodeText, hfun, hhome,
    hplace.found]

end Entry.Resolved

/-! ## Whole reports -/

section Reports

variable {a : Analysis} {contract : Contract}

theorem ContractReport.messageOf?_eq {entries : List Entry}
    (h : ∀ e ∈ entries, e.Resolved a contract) :
    messageOf? a.program entries = some (messageOf a.program entries) := by
  rw [messageOf?, List.mapM_eq_some_map fun e he => (h e he).fragments?_eq, messageOf,
    List.flatMap_def]
  rfl

theorem ContractReport.render?_eq_of_mem_message {r : ContractReport}
    (hmessage : r.message = messageOf a.program r.entries)
    (h : ∀ e ∈ r.entries, e.Resolved a contract) :
    ∀ fragment ∈ r.message, fragment.render? a.program = some (fragment.render a.program) := by
  rw [hmessage, messageOf, List.forall_mem_cons]
  refine ⟨rfl, fun fragment hmem => ?_⟩
  obtain ⟨e, he, hfragment⟩ := List.mem_flatMap.mp hmem
  exact (h e he).render?_eq_of_mem_fragments fragment hfragment

theorem ContractReport.render?_eq {r : ContractReport}
    (hmessage : r.message = messageOf a.program r.entries)
    (h : ∀ e ∈ r.entries, e.Resolved a contract) :
    r.render? a.program = some (r.render a.program) := by
  rw [render?, List.mapM_eq_some_map (render?_eq_of_mem_message hmessage h)]
  rfl

theorem Detector.finding?_eq (d : Detector) {r : ContractReport} (hp : a.program.Closed)
    (hmessage : r.message = ContractReport.messageOf a.program r.entries)
    (h : ∀ e ∈ r.entries, e.Resolved a contract) :
    d.finding? a.program r = some (d.finding a.program r) := by
  have hvariables : ∀ v ∈ r.entries.flatMap Entry.involved,
      a.program.variableName? v = some (a.program.variableName v) := by
    intro v hv
    obtain ⟨e, he, hinvolved⟩ := List.mem_flatMap.mp hv
    exact (h e he).variableName?_eq v hinvolved
  rw [finding?, ContractReport.render?_eq hmessage h,
    List.mapM_eq_some_map fun e he => (h e he).ofNode?_eq hp,
    List.mapM_eq_some_map fun e he => (h e he).functionName?_eq, List.mapM_eq_some_map hvariables]
  rfl

end Reports

namespace Detector

/-- All entries of the report on a contract of a closed program are resolved. -/
theorem exists_resolved_of_reportOn {d : Detector} {p : Program} {influence : Influence}
    {c : ContractId} {r : ContractReport} (hp : p.Closed)
    (hr : d.reportOn p influence c = some r) :
    ∃ contract, p.contractAt? c = some contract ∧ r.contractName = contract.name
      ∧ r.message = ContractReport.messageOf p r.entries
      ∧ ∀ e ∈ r.entries, e.Resolved (d.analysis p influence) contract := by
  obtain ⟨contract, hc, -, -, hname, hentries, hmessage⟩ := reportOn_eq_some hr
  refine ⟨contract, hc, hname, hmessage, fun e he => ?_⟩
  rw [hentries] at he
  exact Analysis.resolved_of_mem_entries hp ((ContractReport.keep_sublist _ _ _ _).subset he)

/-- **Reports on valid programs.** Every entry of the report on a contract is resolved,
and the report, its text and its finding are those that come about without
placeholders. -/
theorem reportOn_resolved (d : Detector) (p : Program) (influence : Influence) (c : ContractId)
    (r : ContractReport) (hp : p.validate = .ok ()) (hr : d.reportOn p influence c = some r) :
    ∃ contract, p.contractAt? c = some contract
      ∧ (∀ e ∈ r.entries, e.Resolved (d.analysis p influence) contract)
      ∧ r.contractName = contract.name
      ∧ ContractReport.messageOf? p r.entries = some r.message
      ∧ r.render? p = some (r.render p)
      ∧ d.finding? p r = some (d.finding p r) := by
  have hclosed : (d.analysis p influence).program.Closed := Program.closed_of_validate hp
  obtain ⟨contract, hc, hname, hmessage, hresolved⟩ := exists_resolved_of_reportOn hclosed hr
  refine ⟨contract, hc, hresolved, hname, ?_, ?_, ?_⟩
  · rw [hmessage]
    exact ContractReport.messageOf?_eq (a := d.analysis p influence) hresolved
  · exact ContractReport.render?_eq (a := d.analysis p influence) hmessage hresolved
  · exact d.finding?_eq (a := d.analysis p influence) hclosed hmessage hresolved

/-- The lender validates, and its report has an entry of each kind; the read of the
first one stands behind a call. -/
theorem reportOn_resolved_lender :
    ∃ r, returnedValues.reportOn lender (fun _ _ _ => true) ⟨0⟩ = some r
      ∧ r.entries = [.dependent ⟨⟨0⟩, ⟨1⟩, ⟨0⟩, .call ⟨2⟩, ⟨0⟩⟩, .returned ⟨⟨1⟩, .call ⟨2⟩, ⟨2⟩⟩]
      ∧ (∃ contract, ∀ e ∈ r.entries,
          e.Resolved (returnedValues.analysis lender fun _ _ _ => true) contract)
      ∧ returnedValues.finding? lender r = some (returnedValues.finding lender r) := by
  have hentries : (returnedValues.reportOn lender (fun _ _ _ => true) ⟨0⟩).map
      ContractReport.entries
        = some [.dependent ⟨⟨0⟩, ⟨1⟩, ⟨0⟩, .call ⟨2⟩, ⟨0⟩⟩, .returned ⟨⟨1⟩, .call ⟨2⟩, ⟨2⟩⟩] := by
    decide
  obtain ⟨r, hr, hkept⟩ := Option.map_eq_some_iff.mp hentries
  obtain ⟨contract, -, hresolved, -, -, -, hfinding⟩ :=
    reportOn_resolved returnedValues lender (fun _ _ _ => true) ⟨0⟩ r (by decide) hr
  exact ⟨r, hr, hkept, ⟨contract, hresolved⟩, hfinding⟩

end Detector

end PriceTaint
