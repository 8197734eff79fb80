/-
How bad a finding is, and how sure.

Severities and confidences are ordered as they are listed. Findings are ranked by
the product of the weight of their severity and the multiplier of their
confidence.
-/
import PriceTaint.Decimal.Score
import PriceTaint.Json.Record

set_option autoImplicit false

namespace PriceTaint

/-! ## Severity -/

/-- How bad a finding is. -/
inductive Severity where
  | informational
  | low
  | medium
  | high
  | critical
deriving DecidableEq, Repr

namespace Severity

/-- All severities, from the least. -/
def all : List Severity := [.informational, .low, .medium, .high, .critical]

/-- The place of a severity in the order. -/
def rank : Severity → Nat
  | .informational => 0
  | .low => 1
  | .medium => 2
  | .high => 3
  | .critical => 4

instance : Ord Severity := ⟨fun a b => compare a.rank b.rank⟩

/-- The name of a severity in reports. -/
def title : Severity → String
  | .informational => "Informational"
  | .low => "Low"
  | .medium => "Medium"
  | .high => "High"
  | .critical => "Critical"

/-- The name of a severity in JSON. -/
def tag : Severity → String
  | .informational => "informational"
  | .low => "low"
  | .medium => "medium"
  | .high => "high"
  | .critical => "critical"

/-- What a severity counts in the ranking of findings. -/
def weight : Severity → Nat
  | .informational => 0
  | .low => 1
  | .medium => 10
  | .high => 100
  | .critical => 1000

def ofTag? : String → Option Severity
  | "informational" => some .informational
  | "low" => some .low
  | "medium" => some .medium
  | "high" => some .high
  | "critical" => some .critical
  | _ => none

def toJson (s : Severity) : Json := .string s.tag

def ofJson? (v : Json) : Option Severity := v.choice? ofTag?

end Severity

/-! ## Confidence -/

/-- How sure a finding is. -/
inductive Confidence where
  | low
  | medium
  | high
deriving DecidableEq, Repr

namespace Confidence

/-- All confidences, from the least. -/
def all : List Confidence := [.low, .medium, .high]

/-- The place of a confidence in the order. -/
def rank : Confidence → Nat
  | .low => 0
  | .medium => 1
  | .high => 2

instance : Ord Confidence := ⟨fun a b => compare a.rank b.rank⟩

/-- The name of a confidence in reports. -/
def title : Confidence → String
  | .low => "Low"
  | .medium => "Medium"
  | .high => "High"

/-- The name of a confidence in JSON. -/
def tag : Confidence → String
  | .low => "low"
  | .medium => "medium"
  | .high => "high"

/-- By how much a confidence multiplies the weight of a severity. -/
def multiplier : Confidence → Nat
  | .low => 1
  | .medium => 5
  | .high => 10

/-- A confidence as a score: three, six or nine tenths. -/
def score : Confidence → Score
  | .low => ⟨false, 3, -1⟩
  | .medium => ⟨false, 6, -1⟩
  | .high => ⟨false, 9, -1⟩

def ofTag? : String → Option Confidence
  | "low" => some .low
  | "medium" => some .medium
  | "high" => some .high
  | _ => none

def toJson (c : Confidence) : Json := .string c.tag

def ofJson? (v : Json) : Option Confidence := v.choice? ofTag?

end Confidence

end PriceTaint
