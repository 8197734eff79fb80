/-
The report of a scan: its findings by priority.

Findings of equal priority keep their order. A report can be written as JSON, the
plain list of findings, or as Markdown, which also says when it was made.
-/
import PriceTaint.Finding.Format

set_option autoImplicit false

namespace PriceTaint

/-- How many findings there are of each severity. -/
structure SeverityCount where
  critical : Nat
  high : Nat
  medium : Nat
  low : Nat
  informational : Nat
deriving DecidableEq, Repr

/-- How many findings there are in all. -/
def SeverityCount.total (c : SeverityCount) : Nat :=
  c.critical + c.high + c.medium + c.low + c.informational

/-- The findings of a scan, by priority. -/
structure ScanReport where
  findings : List Finding
deriving DecidableEq, Repr

namespace ScanReport

/-- The report on a list of findings: those of higher priority first. -/
def ofFindings (fs : List Finding) : ScanReport :=
  ⟨fs.mergeSort fun a b => decide (b.priority ≤ a.priority)⟩

def isEmpty (r : ScanReport) : Bool := r.findings.isEmpty

/-- How many findings of a severity there are. -/
def countOf (r : ScanReport) (s : Severity) : Nat := r.findings.countP fun f => f.severity == s

def count (r : ScanReport) : SeverityCount where
  critical := r.countOf .critical
  high := r.countOf .high
  medium := r.countOf .medium
  low := r.countOf .low
  informational := r.countOf .informational

/-- The findings as JSON text. -/
def json (r : ScanReport) : String := (Finding.listToJson r.findings).pretty

/-! ## Markdown -/

/-- A location with its text. -/
def locationLine (l : Location) : String :=
  "- " ++ l.contract ++ "::" ++ l.function ++ " (node " ++ toString l.node ++ ")"
    ++ (match l.snippet with
      | some s => ": `" ++ s ++ "`"
      | none => "")
    ++ "\n"

/-- The locations of a finding, if it has any. -/
def locationSection (f : Finding) : String :=
  if f.locations.isEmpty then ""
  else "**Locations:**\n" ++ String.join (f.locations.map locationLine) ++ "\n"

/-- A finding in Markdown. -/
def findingSection (f : Finding) : String :=
  "### " ++ f.severity.title ++ ": " ++ f.title ++ "\n\n"
    ++ "**Scanner:** " ++ f.scannerId ++ "\n"
    ++ "**Confidence:** " ++ f.confidence.title ++ "\n\n"
    ++ "```\n" ++ f.description ++ "```\n\n"
    ++ locationSection f
    ++ (match f.recommendation? with
      | some advice => "**Recommendation:** " ++ advice ++ "\n\n"
      | none => "")

/-- The number of findings of every severity. -/
def summarySection (c : SeverityCount) : String :=
  "## Summary\n\n"
    ++ "- Critical: " ++ toString c.critical ++ "\n"
    ++ "- High: " ++ toString c.high ++ "\n"
    ++ "- Medium: " ++ toString c.medium ++ "\n"
    ++ "- Low: " ++ toString c.low ++ "\n"
    ++ "- Informational: " ++ toString c.informational ++ "\n\n"

/-- The report in Markdown; `time` says when it was made. -/
def markdown (r : ScanReport) (time : String) : String :=
  "# Scan Report\n\n"
    ++ "_Generated " ++ time ++ "_\n\n"
    ++ summarySection r.count
    ++ (if r.isEmpty then "" else "## Findings\n\n" ++ String.join (r.findings.map findingSection))

end ScanReport

end PriceTaint
