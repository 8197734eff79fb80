/-
Findings: what is shown to the user.

A finding points to nodes by name and index and carries optional lists of what is
affected. Absent details and empty details are different things, in memory and in
JSON.
-/
import PriceTaint.Finding.Grade
import PriceTaint.Program.Basic

set_option autoImplicit false

namespace PriceTaint

/-- A node, as findings name it. -/
structure Location where
  contract : String
  function : String
  node : Nat
  snippet : Option String := none
deriving DecidableEq, Repr

/-- The location of a node of a function, with the text of the node. -/
def Location.ofNode (p : Program) (f : FunctionId) (n : NodeId) : Location where
  contract := (((p.functionAt? f).bind fun function => p.contractAt? function.contract).map (·.name)).getD ""
  function := p.functionName f
  node := n.index
  snippet := some (p.nodeText n)

/-- What a finding affects, and what to do about it. -/
structure Details where
  affectedFunctions : List String := []
  affectedVariables : List String := []
  affectedContracts : List String := []
  recommendation : Option String := none
deriving DecidableEq, Repr

/-- A finding. -/
structure Finding where
  scannerId : String
  severity : Severity
  confidence : Confidence
  score : Score
  title : String
  description : String
  locations : List Location := []
  details : Option Details := none
deriving DecidableEq, Repr

namespace Finding

/-- A finding without locations and details. Its score is that of its confidence. -/
def make (scannerId : String) (severity : Severity) (confidence : Confidence)
    (title description : String) : Finding :=
  { scannerId, severity, confidence, score := confidence.score, title, description }

/-! ## Adding to a finding -/

def addLocation (f : Finding) (l : Location) : Finding := { f with locations := f.locations ++ [l] }

def setLocations (f : Finding) (ls : List Location) : Finding := { f with locations := ls }

/-- Changes the details, which are there from then on. -/
def modifyDetails (f : Finding) (change : Details → Details) : Finding :=
  { f with details := some (change (f.details.getD {})) }

def addContract (f : Finding) (name : String) : Finding :=
  f.modifyDetails fun d => { d with affectedContracts := d.affectedContracts ++ [name] }

def addFunction (f : Finding) (name : String) : Finding :=
  f.modifyDetails fun d => { d with affectedFunctions := d.affectedFunctions ++ [name] }

def addVariable (f : Finding) (name : String) : Finding :=
  f.modifyDetails fun d => { d with affectedVariables := d.affectedVariables ++ [name] }

def recommend (f : Finding) (advice : String) : Finding :=
  f.modifyDetails fun d => { d with recommendation := some advice }

/-- What the finding recommends. -/
def recommendation? (f : Finding) : Option String := f.details.bind (·.recommendation)

/-! ## Ranking and identity -/

/-- Findings are ranked by this number, the largest first. -/
def priority (f : Finding) : Nat := f.severity.weight * f.confidence.multiplier

/-- A key made of the scanner and of the first location, if there is one. -/
def key (f : Finding) : String :=
  match f.locations with
  | [] => f.scannerId
  | l :: _ =>
    f.scannerId ++ ":" ++ l.contract ++ ":" ++ l.function ++ ":" ++ toString l.node

end Finding

end PriceTaint
