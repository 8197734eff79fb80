/-
One report, told in several ways.

The entries of a report are shown as a message in fragments, as the text of that message, as
the locations of a finding, and as the lists of what the finding affects. Each of these goes
through the entries once more. Here every one of them is described by the entries alone, so
that they cannot tell different stories: what stands first in one stands first in all.

A finding is written down at once. It could as well be put together, starting from one without
locations and details and adding names while the entries are gone through; the second half
shows that this gives the same. The invariant of that walk is that the names noted so far are
those of the entries so far, without repetitions.
-/
import Mathlib.Data.List.Forall2
import Mathlib.Data.List.Induction
import PriceTaint.Proofs.Taint.Selection

set_option autoImplicit false

namespace PriceTaint

/-! ## The message -/

/-- The node that a fragment stands for, unless it is a text. -/
def Fragment.node? : Fragment → Option NodeId
  | .text _ => none
  | .node id => some id

/-- A dependent flow as text: two lines, with the names of everything that it is about. -/
def DependentFlow.lines (p : Program) (flow : DependentFlow) : String :=
  "\t- In function " ++ p.functionName flow.function ++ "\n"
    ++ "\t\t-- " ++ p.nodeText flow.node
    ++ " have potential price manipulated risk from " ++ p.variableName flow.tainted
    ++ " and call " ++ flow.read.render p
    ++ " which could influence variable:" ++ p.variableName flow.risk ++ "\n"

/-- A return flow as text. -/
def ReturnFlow.lines (p : Program) (flow : ReturnFlow) : String :=
  "\t- In function " ++ p.functionName flow.function ++ "\n"
    ++ "\t\t-- " ++ p.nodeText flow.node
    ++ " have potential price manipulated risk in return call " ++ flow.read.render p
    ++ " could influence return value\n"

namespace Entry

/-- An entry as text. -/
def lines (p : Program) : Entry → String
  | .dependent flow => flow.lines p
  | .returned flow => flow.lines p

/-- The fragments of an entry, put together, are its lines. -/
theorem join_fragments (p : Program) (e : Entry) :
    String.join ((e.fragments p).map (Fragment.render p)) = e.lines p := by
  cases e with
  | dependent flow =>
    rw [lines]
    unfold DependentFlow.lines
    simp only [fragments, remark, List.cons_append, List.nil_append, List.map_cons, List.map_nil,
      Fragment.render, String.join_cons, String.join_nil, String.append_empty,
      String.append_assoc, function, node]
  | returned flow =>
    rw [lines]
    unfold ReturnFlow.lines
    simp only [fragments, remark, List.cons_append, List.nil_append, List.map_cons, List.map_nil,
      Fragment.render, String.join_cons, String.join_nil, String.append_empty,
      String.append_assoc, function, node]

theorem exists_lines_eq (p : Program) (e : Entry) : ∃ text, e.lines p = text ++ "\n" := by
  have hlast : " could influence return value\n" = " could influence return value" ++ "\n" := rfl
  cases e with
  | dependent flow => exact ⟨_, rfl⟩
  | returned flow => exact ⟨_, (congrArg (_ ++ ·) hlast).trans String.append_assoc.symm⟩

/-- An entry names its node once. -/
theorem filterMap_node?_fragments (p : Program) (e : Entry) :
    (e.fragments p).filterMap Fragment.node? = [e.node] := by
  cases e <;> rfl

/-- The variables that an entry is about are those of its flow, if that is dependent. -/
theorem flatMap_involved (entries : List Entry) :
    entries.flatMap involved
      = (entries.filterMap dependent?).flatMap fun flow => [flow.risk, flow.tainted] := by
  induction entries with
  | nil => rfl
  | cons e entries ih =>
    rw [List.flatMap_cons, ih]
    cases e <;> rfl

end Entry

namespace ContractReport

/-- The nodes in a message are those of its entries. -/
theorem filterMap_node?_messageOf (p : Program) (entries : List Entry) :
    (messageOf p entries).filterMap Fragment.node? = entries.map Entry.node := by
  have hentries : (entries.flatMap (Entry.fragments p)).filterMap Fragment.node?
      = entries.map Entry.node := by
    rw [List.filterMap_flatMap, List.map_eq_flatMap]
    exact List.flatMap_congr fun e _ => e.filterMap_node?_fragments p
  rw [messageOf, List.filterMap_cons_none rfl, hentries]

/-- The text of a message is the header and the lines of its entries. -/
theorem join_messageOf (p : Program) (entries : List Entry) :
    String.join ((messageOf p entries).map (Fragment.render p))
      = header ++ String.join (entries.map (Entry.lines p)) := by
  rw [messageOf, List.map_cons, String.join_cons, Fragment.render]
  congr 1
  induction entries with
  | nil => rfl
  | cons e entries ih =>
    rw [List.flatMap_cons, List.map_append, String.join_append, ih, e.join_fragments, List.map_cons,
      String.join_cons]

end ContractReport

/-! ## Putting a finding together -/

/-- A name is noted unless it has been noted before. -/
def noteName (noted : List String) (name : String) : List String :=
  if noted.contains name then noted else noted ++ [name]

/-- Noting names one by one leaves out the repetitions. -/
theorem foldl_noteName (names : List String) : names.foldl noteName [] = names.eraseDups := by
  induction names using List.reverseRecOn with
  | nil => rfl
  | append_singleton names name ih =>
    have hnoted : names.eraseDups.contains name = names.contains name := by
      rw [Bool.eq_iff_iff, List.contains_iff_mem, List.contains_iff_mem, List.mem_eraseDups]
    rw [List.foldl_append, ih, List.foldl_cons, List.foldl_nil, noteName, hnoted,
      List.eraseDups_concat]
    cases names.contains name with
    | true => exact (List.append_nil _).symm
    | false => rfl

/-- Names may be noted in two goes. -/
theorem foldl_noteName_eraseDups (names names' : List String) :
    names'.foldl noteName names.eraseDups = (names ++ names').eraseDups := by
  rw [← foldl_noteName, ← foldl_noteName, List.foldl_append]

/-- The names that are noted while the entries of a report are gone through. -/
structure NamesNoted where
  ofFunctions : List String := []
  ofVariables : List String := []

namespace NamesNoted

/-- Notes the names of one more entry. -/
def add (p : Program) (noted : NamesNoted) (e : Entry) : NamesNoted where
  ofFunctions := noteName noted.ofFunctions (p.functionName e.function)
  ofVariables := (e.involved.map p.variableName).foldl noteName noted.ofVariables

/-- The names of all entries, each once. -/
def ofEntries (p : Program) (entries : List Entry) : NamesNoted where
  ofFunctions := (entries.map fun e => p.functionName e.function).eraseDups
  ofVariables := ((entries.flatMap Entry.involved).map p.variableName).eraseDups

/-- One more entry adds its own names, as far as they are new. -/
theorem add_ofEntries (p : Program) (entries : List Entry) (e : Entry) :
    (ofEntries p entries).add p e = ofEntries p (entries ++ [e]) := by
  have hfunctions := foldl_noteName_eraseDups (entries.map fun e => p.functionName e.function)
    [p.functionName e.function]
  have hvariables := foldl_noteName_eraseDups
    ((entries.flatMap Entry.involved).map p.variableName) (e.involved.map p.variableName)
  rw [ofEntries, ofEntries, List.map_append, List.map_singleton, ← hfunctions,
    List.flatMap_append, List.flatMap_singleton, List.map_append, ← hvariables]
  rfl

theorem foldl_add (p : Program) (entries : List Entry) :
    entries.foldl (add p) {} = ofEntries p entries := by
  induction entries using List.reverseRecOn with
  | nil => rfl
  | append_singleton entries e ih =>
    rw [List.foldl_append, ih, List.foldl_cons, List.foldl_nil, add_ofEntries]

end NamesNoted

namespace Finding

/-- Once there are details, names are added to them one by one as they would be at once, whatever
the list they go to. -/
theorem foldl_modifyDetails (put : Details → List String → Details)
    (hnil : ∀ details, put details [] = details)
    (happend : ∀ details names names', put (put details names) names'
      = put details (names ++ names'))
    {f : Finding} {details : Details} (h : f.details = some details) (names : List String) :
    names.foldl (fun f name => f.modifyDetails (put · [name])) f
      = { f with details := some (put details names) } := by
  induction names generalizing f details with
  | nil => rw [List.foldl_nil, hnil, ← h]
  | cons name names ih =>
    have hadd : (f.modifyDetails (put · [name])).details = some (put details [name]) := by
      rw [modifyDetails, h]
      rfl
    rw [List.foldl_cons, ih hadd, happend, List.singleton_append]
    rfl

theorem foldl_addFunction {f : Finding} {details : Details} (h : f.details = some details)
    (names : List String) :
    names.foldl addFunction f = { f with details := some { details with
      affectedFunctions := details.affectedFunctions ++ names } } :=
  foldl_modifyDetails
    (fun details names => { details with
      affectedFunctions := details.affectedFunctions ++ names })
    (fun _ => by rw [List.append_nil]) (fun _ _ _ => by rw [List.append_assoc]) h names

theorem foldl_addVariable {f : Finding} {details : Details} (h : f.details = some details)
    (names : List String) :
    names.foldl addVariable f = { f with details := some { details with
      affectedVariables := details.affectedVariables ++ names } } :=
  foldl_modifyDetails
    (fun details names => { details with
      affectedVariables := details.affectedVariables ++ names })
    (fun _ => by rw [List.append_nil]) (fun _ _ _ => by rw [List.append_assoc]) h names

end Finding

namespace Detector

/-- The finding of a report, put together step by step: the contract and the advice first, then
the functions and the variables that were noted on the way through the entries. -/
def findingInSteps (d : Detector) (p : Program) (r : ContractReport) : Finding :=
  let noted := r.entries.foldl (NamesNoted.add p) {}
  let start := Finding.make d.profile.id d.profile.severity d.profile.confidence
    ("Potential price manipulation in '" ++ r.contractName ++ "'") (r.render p)
  let located := start.setLocations (r.entries.map fun e => Location.ofNode p e.function e.node)
  let advised := (located.addContract r.contractName).recommend d.profile.recommendation
  noted.ofVariables.foldl Finding.addVariable (noted.ofFunctions.foldl Finding.addFunction advised)

theorem findingInSteps_eq (d : Detector) (p : Program) (r : ContractReport) :
    d.findingInSteps p r = d.finding p r := by
  rw [findingInSteps, NamesNoted.foldl_add, Finding.foldl_addFunction rfl,
    Finding.foldl_addVariable rfl]
  rfl

/-! ## The story -/

/-- **One story.** The nodes in the message of a report are its nodes, in order, and so are
those of the locations of its finding: there is one location for each entry, with the name of
its function and the text of its node. The text of the report is the header and the lines of the
entries, each ending in a newline, and describes the finding. The finding affects the functions
of the entries, the variables of the dependent ones, the one at risk before the tainted one,
each name at its first occurrence, and the contract that is reported. Putting it together step
by step gives the same finding. -/
theorem finding_tells_report (d : Detector) (p : Program) (c : ContractId) (flows : Flows)
    (oncePerNode : Bool) (r : ContractReport)
    (h : ContractReport.ofFlows? p c flows oncePerNode = some r) :
    r.message.filterMap Fragment.node? = r.nodes
      ∧ (d.finding p r).locations.map Location.node = r.nodes.map Handle.index
      ∧ List.Forall₂ (fun l e => l.function = p.functionName e.function ∧ l.node = e.node.index
          ∧ l.snippet = some (p.nodeText e.node)) (d.finding p r).locations r.entries
      ∧ r.render p = "Potential price manipulation risk:\n"
          ++ String.join (r.entries.map (Entry.lines p))
      ∧ (∀ e ∈ r.entries, ∃ text, e.lines p = text ++ "\n")
      ∧ (d.finding p r).description = r.render p
      ∧ (∃ details, (d.finding p r).details = some details
          ∧ details.affectedFunctions
            = (r.entries.map fun e => p.functionName e.function).eraseDups
          ∧ details.affectedVariables
            = ((r.entries.filterMap Entry.dependent?).flatMap fun flow =>
                [p.variableName flow.risk, p.variableName flow.tainted]).eraseDups
          ∧ details.affectedContracts = [r.contractName]
          ∧ r.contractName = ((p.contractAt? c).map (·.name)).getD "")
      ∧ d.findingInSteps p r = d.finding p r := by
  obtain ⟨-, rfl⟩ := (ContractReport.ofFlows?_eq_some_iff p c flows oncePerNode r).mp h
  generalize flows.kept p oncePerNode = entries
  refine ⟨ContractReport.filterMap_node?_messageOf p entries, ?_, ?_,
    ContractReport.join_messageOf p entries, fun e _ => e.exists_lines_eq p, rfl, ?_,
    d.findingInSteps_eq p _⟩
  · rw [finding, ContractReport.nodes, List.map_map, List.map_map]
    rfl
  · refine List.forall₂_map_left_iff.mpr (List.forall₂_same.mpr fun e _ => ?_)
    exact ⟨rfl, rfl, rfl⟩
  · refine ⟨_, rfl, rfl, ?_, rfl, rfl⟩
    show ((entries.flatMap Entry.involved).map p.variableName).eraseDups = _
    rw [Entry.flatMap_involved, List.map_flatMap]
    rfl

/-- A fair with two statements and two variables of one name. -/
def fair : Program where
  contracts := #[{ name := "Fair" }]
  functions := #[⟨"sell", "sell()", .function, ⟨0⟩, [⟨0⟩, ⟨1⟩], []⟩]
  nodes := #[{ owner := ⟨0⟩, text := "price = pair.getReserves()" },
    { owner := ⟨0⟩, text := "return pair.balance" }]
  vars := #[{ name := "amount", storage := .local }, { name := "price", storage := .local },
    { name := "amount", storage := .state }]

/-- Flows of both kinds. The second has a function, a variable and a call that are missing, and
comes back to a name that the first has brought. -/
def fairFlows : Flows where
  dependent := [⟨⟨0⟩, ⟨0⟩, ⟨1⟩, .call ⟨0⟩, ⟨0⟩⟩, ⟨⟨7⟩, ⟨8⟩, ⟨2⟩, .call ⟨9⟩, ⟨1⟩⟩]
  returned := [⟨⟨0⟩, .builtin "balance(address)", ⟨1⟩⟩]

/-- All three flows are told, in order; the names come once each, and those of missing parts are
told as well. -/
theorem finding_tells_report_fair :
    ∃ r, ContractReport.ofFlows? fair ⟨0⟩ fairFlows false = some r
      ∧ r.message.filterMap Fragment.node? = [⟨0⟩, ⟨1⟩, ⟨1⟩]
      ∧ (movedAmounts.finding fair r).locations.map Location.node = [0, 1, 1]
      ∧ (movedAmounts.finding fair r).description = r.render fair
      ∧ r.render fair = "Potential price manipulation risk:\n"
          ++ String.join (r.entries.map (Entry.lines fair))
      ∧ (∃ details, (movedAmounts.finding fair r).details = some details
          ∧ details.affectedFunctions = ["sell", "<unknown>"]
          ∧ details.affectedVariables = ["amount", "price", "<unknown>"]
          ∧ details.affectedContracts = ["Fair"])
      ∧ movedAmounts.findingInSteps fair r = movedAmounts.finding fair r := by
  obtain ⟨r, hr⟩ : ∃ r, ContractReport.ofFlows? fair ⟨0⟩ fairFlows false = some r := ⟨_, rfl⟩
  obtain ⟨hnodes, hlocations, -, hrender, -, hdescription,
    ⟨details, hdetails, hfunctions, hvariables, hcontracts, hname⟩, hsteps⟩ :=
    finding_tells_report movedAmounts fair ⟨0⟩ fairFlows false r hr
  have hentries : r.entries = fairFlows.reportable fair :=
    ((ContractReport.ofFlows?_eq_some_iff fair ⟨0⟩ fairFlows false r).mp hr).2 ▸ rfl
  have hreported : r.nodes = [⟨0⟩, ⟨1⟩, ⟨1⟩] := by
    rw [ContractReport.nodes, hentries]
    decide
  rw [hentries] at hfunctions hvariables
  refine ⟨r, hr, hnodes.trans hreported, ?_, hdescription, hrender, ⟨details, hdetails,
    hfunctions.trans (by decide), hvariables.trans (by decide), ?_⟩, hsteps⟩
  · rw [hlocations, hreported]
    rfl
  · rw [hcontracts, hname]
    rfl

end Detector

end PriceTaint
