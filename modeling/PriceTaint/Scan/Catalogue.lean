/-
The catalogue of scanners.

Scanners are filed under their id, and a scanner filed later takes the place of an
earlier one with the same id. Listings are in the order of ids, character by
character.
-/
import Std.Data.ExtTreeMap
import PriceTaint.Scan.Scanner

set_option autoImplicit false

namespace PriceTaint

/-- Scanners filed under their ids. -/
structure Catalogue where
  scanners : Std.ExtTreeMap String Scanner compare

namespace Catalogue

/-- The catalogue without scanners. -/
def empty : Catalogue := ⟨∅⟩

/-- Files a scanner under its id. -/
def register (c : Catalogue) (s : Scanner) : Catalogue := ⟨c.scanners.insert s.id s⟩

/-- The catalogue of both detectors. -/
def standard : Catalogue :=
  (empty.register Detector.movedAmounts.toScanner).register Detector.returnedValues.toScanner

/-- The scanner with the given id. -/
def get? (c : Catalogue) (id : String) : Option Scanner := c.scanners.get? id

/-- All scanners. -/
def all (c : Catalogue) : List Scanner := c.scanners.toList.map Prod.snd

/-- All ids. -/
def ids (c : Catalogue) : List String := c.scanners.toList.map Prod.fst

/-- The number of scanners. -/
def size (c : Catalogue) : Nat := c.scanners.size

/-- The scanners of a given severity. -/
def withSeverity (c : Catalogue) (severity : Severity) : List Scanner :=
  c.all.filter fun s => s.severity == severity

/-- The scanners that are enabled by default. -/
def enabled (c : Catalogue) : List Scanner := c.all.filter Scanner.enabledByDefault

end Catalogue

end PriceTaint
