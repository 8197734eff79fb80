/-
Scanners: anything that turns a program into findings.

The set of scanners is open, so a scanner is a record of what it is called and a
function that scans. The function may fail; what it says then is for the log and
not part of any answer.
-/
import PriceTaint.Document
import PriceTaint.Scan.Settings
import PriceTaint.Taint.Detector

set_option autoImplicit false

namespace PriceTaint

/-- What a scanner looks at. -/
structure Subject where
  program : Program
  influence : Influence
  settings : Settings

/-- The subject of a document. -/
def Subject.ofDocument (d : Document) (settings : Settings) : Subject :=
  ⟨d.program, d.influence.influence, settings⟩

/-- A scanner. -/
structure Scanner where
  id : String
  name : String
  description : String := "No description provided"
  severity : Severity
  confidence : Confidence
  enabledByDefault : Bool := true
  /-- The findings, or `none` if the scan fails. -/
  scan : Subject → Option (List Finding)

/-- A detector as a scanner. Depth, repetition and the way of working come from the
settings. -/
def Detector.toScanner (d : Detector) : Scanner where
  id := d.profile.id
  name := d.profile.name
  description := d.profile.help
  severity := d.profile.severity
  confidence := d.profile.confidence
  scan := fun s =>
    let tuned := { d with depth := s.settings.depth, oncePerNode := s.settings.oncePerNode }
    let reports :=
      if s.settings.parallel then tuned.reportsInParallel s.program s.influence
      else tuned.reports s.program s.influence
    some (reports.map (tuned.finding s.program))

/-- What is shown of a scanner. -/
structure ScannerInfo where
  id : String
  name : String
  description : String
  severity : Severity
  confidence : Confidence
deriving DecidableEq, Repr

def Scanner.info (s : Scanner) : ScannerInfo :=
  ⟨s.id, s.name, s.description, s.severity, s.confidence⟩

def ScannerInfo.toJson (i : ScannerInfo) : Json :=
  .object [
    ("id", .string i.id),
    ("name", .string i.name),
    ("description", .string i.description),
    ("severity", i.severity.toJson),
    ("confidence", i.confidence.toJson)]

end PriceTaint
