/-
A scan session: scanners that run under common settings.

A scanner that is not enabled does not run, and a scanner that fails contributes
nothing; neither stops the others. Of what the rest find, everything below the
least confidence is dropped. Scanners may run side by side, and what they find is
put together in their order.
-/
import PriceTaint.Scan.Catalogue
import PriceTaint.Scan.Report

set_option autoImplicit false

namespace PriceTaint

/-- Scanners and the settings they run under. -/
structure Session where
  settings : Settings
  scanners : List Scanner

namespace Session

/-- The scanners that take part. -/
def selected (s : Session) : List Scanner := s.scanners.filter fun x => s.settings.enables x.id

/-- Everything that the scanners find, scanner by scanner. -/
def found (s : Session) (subject : Subject) : List Finding :=
  if s.settings.parallel then
    ((inParallel (fun x => x.scan subject) s.selected).filterMap id).flatten
  else (s.selected.filterMap fun x => x.scan subject).flatten

/-- The report on a subject. -/
def run (s : Session) (subject : Subject) : ScanReport :=
  ScanReport.ofFindings ((s.found subject).filter fun f => s.settings.shows f.confidence)

/-- What is shown of the scanners. -/
def list (s : Session) : List ScannerInfo := s.scanners.map Scanner.info

end Session

end PriceTaint
