/-
What the commands print.

Every function gives the text of whole lines. A single document and a directory of
documents are printed in three formats each.
-/
import PriceTaint.Command.Style
import PriceTaint.Document
import PriceTaint.Scan.Session
import PriceTaint.Text.Lines

set_option autoImplicit false

namespace PriceTaint.Print

/-- A line. -/
def line (s : String) : String := s ++ "\n"

/-- Lines, one after the other. -/
def linesOf (ss : List String) : String := String.join (ss.map line)

/-- How things are printed. -/
structure Mode where
  color : Bool
  verbose : Bool
deriving DecidableEq, Repr

/-- The name of a severity in its style. -/
def severityLabel (color : Bool) (s : Severity) : String :=
  (Style.ofSeverity s).paint color s.title

/-! ## Findings on the console -/

/-- What is printed of a finding if more is asked for. -/
def findingDetails (mode : Mode) (indent : String) (f : Finding) : List String :=
  [indent ++ "   Confidence: " ++ f.confidence.title]
    ++ (if f.locations.isEmpty then []
      else (indent ++ "   Locations:") :: f.locations.map fun l =>
        indent ++ "     - " ++ l.contract ++ "::" ++ l.function ++ " node " ++ toString l.node)
    ++ f.recommendation?.toList.map fun advice =>
      indent ++ "   " ++ Style.faint.paint mode.color ("Recommendation: " ++ advice)

/-- A numbered finding. -/
def finding (mode : Mode) (indent : String) (number : Nat) (f : Finding) : String :=
  linesOf ([
      "\n" ++ indent ++ toString number ++ ". [" ++ severityLabel mode.color f.severity ++ "] "
        ++ f.title,
      indent ++ "   Detector: " ++ f.scannerId]
    ++ ((Text.lines f.description).map fun l => indent ++ "   " ++ l)
    ++ (if mode.verbose then findingDetails mode indent f else []))

/-- Findings numbered from one. -/
def findings (mode : Mode) (indent : String) (fs : List Finding) : String :=
  String.join (fs.zipIdx.map fun e => finding mode indent (e.2 + 1) e.1)

/-! ## One document -/

def reportConsole (mode : Mode) (path : String) (r : ScanReport) : String :=
  line ("\n📄 Scan results for: " ++ path)
    ++ (if r.isEmpty then line (Style.success.paint mode.color "✅ No price manipulation risks found")
      else
        line ("⚠️  Found " ++ toString r.findings.length ++ " potential risks ("
          ++ toString r.count.high ++ " high, " ++ toString r.count.informational
          ++ " informational):")
        ++ findings mode "" r.findings)

/-! ## A directory of documents -/

/-- The findings of several documents, with the path of each. -/
abbrev DirectoryFindings := List (String × List Finding)

/-- How many findings there are in all. -/
def totalFindings (all : DirectoryFindings) : Nat := all.foldl (fun n e => n + e.2.length) 0

def directoryConsole (mode : Mode) (all : DirectoryFindings) : String :=
  if all.isEmpty then
    line (Style.success.paint mode.color "✅ No price manipulation risks found in any document")
  else
    linesOf [
      "\n📊 Directory Scan Summary:",
      "   Documents with findings: " ++ toString all.length,
      "   Total findings: " ++ toString (totalFindings all),
      "\n📋 Detailed Results:"]
    ++ String.join (all.map fun e => line ("\n📄 " ++ e.1) ++ findings mode "  " e.2)

/-- The findings of every document as one JSON object. -/
def directoryJson (all : DirectoryFindings) : String :=
  line (Json.object (all.map fun e => (e.1, Finding.listToJson e.2))).pretty

/-- A finding in the Markdown of a directory. -/
def directoryItem (f : Finding) : String :=
  linesOf [
    "- **" ++ f.severity.title ++ "**: " ++ f.title,
    "  - **Detector**: " ++ f.scannerId,
    "  ```\n" ++ f.description ++ "  ```\n"]

def directoryMarkdown (all : DirectoryFindings) : String :=
  line "# Directory Scan Report\n"
    ++ (if all.isEmpty then line "No price manipulation risks found in any document"
      else
        linesOf [
          "## Summary\n",
          "- Documents with findings: " ++ toString all.length,
          "- Total findings: " ++ toString (totalFindings all) ++ "\n",
          "## Detailed Results\n"]
        ++ String.join (all.map fun e =>
          line ("### File: `" ++ e.1 ++ "`\n") ++ String.join (e.2.map directoryItem)))

/-! ## Other commands -/

/-- The list of scanners. -/
def scannerList (color : Bool) (scanners : List ScannerInfo) : String :=
  linesOf [
    Style.heading.paint color "Available detectors",
    Style.rule.paint color (String.ofList (List.replicate 60 '='))]
  ++ String.join (scanners.map fun s => linesOf [
    "\n" ++ Style.strong.paint color s.id ++ " [" ++ severityLabel color s.severity ++ " / "
      ++ s.confidence.title ++ " confidence]",
    "  " ++ s.name,
    Style.faint.paint color ("  " ++ s.description)])

/-- What is printed before a document is validated. -/
def validationHeader (color : Bool) (path : String) : String :=
  linesOf [
    Style.heading.paint color "🔍 Validating program document",
    Style.rule.paint color (String.ofList (List.replicate 50 '═')),
    "📁 Input: " ++ path,
    ""]

/-- What is printed about an invalid document. -/
def invalid (color : Bool) (reason : String) : String :=
  linesOf [
    Style.strongFailure.paint color "❌ INVALID",
    "\n" ++ Style.failure.paint color "Error:",
    reason]

/-- A contract of a valid document. -/
def contractLine (c : Contract) : String :=
  "   - " ++ c.name ++ " (" ++ (if c.isInterface then "interface" else "contract") ++ ", "
    ++ toString c.functions.length ++ " functions)"

/-- What is printed about a valid document. -/
def valid (mode : Mode) (d : Document) : String :=
  linesOf [
    Style.strongSuccess.paint mode.color "✅ VALID",
    "   Contracts: " ++ toString d.program.contracts.size,
    "   Functions: " ++ toString d.program.functions.size,
    "   Nodes: " ++ toString d.program.nodes.size,
    "   Calls: " ++ toString d.program.calls.size,
    "   Variables: " ++ toString d.program.vars.size,
    "   Dependency edges: " ++ toString d.influence.edges.size]
  ++ (if mode.verbose then
      line "\n📊 Contracts:" ++ linesOf (d.program.contracts.toList.map contractLine)
    else "")

end PriceTaint.Print
