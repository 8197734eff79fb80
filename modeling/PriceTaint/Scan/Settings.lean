/-
The settings of a scan.

In JSON every setting may be left out, in the array form from the end.
-/
import PriceTaint.Finding.Grade
import PriceTaint.Json.Reader
import PriceTaint.Json.Record
import PriceTaint.Taint.Reads

set_option autoImplicit false

namespace PriceTaint

open Json (Fields)

/-- The settings of a scan. -/
structure Settings where
  /-- Whether scanners run, and contracts are looked at, side by side. That is a wish
  about scheduling, and no answer depends on it. -/
  parallel : Bool := true
  /-- The depth to which calls are followed. -/
  depth : Nat := defaultDepth
  /-- Whether a node is reported once only. -/
  oncePerNode : Bool := true
  /-- The least confidence that is shown; everything is if there is none. -/
  minConfidence : Option Confidence := none
  /-- The scanners that take part; all do if there is no list. -/
  enabled : Option (List String) := none
deriving DecidableEq, Repr

namespace Settings

/-- Is a finding of this confidence shown? -/
def shows (s : Settings) (c : Confidence) : Bool :=
  match s.minConfidence with
  | some least => decide (least.rank ≤ c.rank)
  | none => true

/-- Does the scanner take part? -/
def enables (s : Settings) (scannerId : String) : Bool :=
  match s.enabled with
  | some ids => ids.contains scannerId
  | none => true

def fieldNames : List String :=
  ["parallel_execution", "max_call_depth", "deduplication_enabled", "min_confidence",
    "enabled_scanners"]

def toJson (s : Settings) : Json :=
  .object [
    ("parallel_execution", .bool s.parallel),
    ("max_call_depth", .ofNat s.depth),
    ("deduplication_enabled", .bool s.oncePerNode),
    ("min_confidence", .ofOption Confidence.toJson s.minConfidence),
    ("enabled_scanners", .ofOption (.ofList .string) s.enabled)]

def ofJson? (v : Json) : Option Settings := do
  let fields ← v.fields? fieldNames
  return {
    parallel := ← fields.withDefault "parallel_execution" true Json.bool?
    depth := ← fields.withDefault "max_call_depth" defaultDepth Json.index?
    oncePerNode := ← fields.withDefault "deduplication_enabled" true Json.bool?
    minConfidence := ← fields.withDefault "min_confidence" none (Json.nullable? Confidence.ofJson?)
    enabled := ← fields.withDefault "enabled_scanners" none (Json.nullable? (Json.list? Json.text?)) }

/-- Reads settings from a text. -/
def parse? (text : String) : Option Settings := (Json.parse? text).bind ofJson?

end Settings

end PriceTaint
