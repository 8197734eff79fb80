/-
Findings as JSON.

Absent snippets, details and recommendations and empty lists of details are not
written. Reading takes what is not written to be absent or empty; only in the
array form of a finding must the details be given, as `null` if need be.
-/
import PriceTaint.Finding.Basic
import PriceTaint.Json.Writer

set_option autoImplicit false

namespace PriceTaint

open Json (Fields)

namespace Location

def fieldNames : List String := ["contract", "function", "node", "snippet"]

def toJson (l : Location) : Json :=
  .object ([
    ("contract", .string l.contract),
    ("function", .string l.function),
    ("node", .ofNat l.node)]
    ++ l.snippet.toList.map fun s => ("snippet", .string s))

def ofJson? (v : Json) : Option Location := do
  let fields ← v.fields? fieldNames
  return {
    contract := ← fields.required "contract" Json.text?
    function := ← fields.required "function" Json.text?
    node := ← fields.required "node" Json.index?
    snippet := ← fields.withDefault "snippet" none (Json.nullable? Json.text?) }

end Location

namespace Details

def fieldNames : List String :=
  ["affected_functions", "affected_variables", "affected_contracts", "recommendation"]

/-- A member for a list of names, unless it is empty. -/
def namesMember (name : String) (names : List String) : List (String × Json) :=
  if names.isEmpty then [] else [(name, .ofList .string names)]

def toJson (d : Details) : Json :=
  .object (
    namesMember "affected_functions" d.affectedFunctions
    ++ namesMember "affected_variables" d.affectedVariables
    ++ namesMember "affected_contracts" d.affectedContracts
    ++ d.recommendation.toList.map fun s => ("recommendation", .string s))

def ofJson? (v : Json) : Option Details := do
  let fields ← v.fields? fieldNames
  return {
    affectedFunctions := ← fields.withDefault "affected_functions" [] (Json.list? Json.text?)
    affectedVariables := ← fields.withDefault "affected_variables" [] (Json.list? Json.text?)
    affectedContracts := ← fields.withDefault "affected_contracts" [] (Json.list? Json.text?)
    recommendation := ← fields.withDefault "recommendation" none (Json.nullable? Json.text?) }

end Details

namespace Finding

def fieldNames : List String :=
  ["scanner_id", "severity", "confidence", "confidence_score", "title", "description", "locations",
    "metadata"]

def toJson (f : Finding) : Json :=
  .object ([
    ("scanner_id", .string f.scannerId),
    ("severity", f.severity.toJson),
    ("confidence", f.confidence.toJson),
    ("confidence_score", .number f.score.toNumeral),
    ("title", .string f.title),
    ("description", .string f.description),
    ("locations", .ofList Location.toJson f.locations)]
    ++ f.details.toList.map fun d => ("metadata", d.toJson))

/-- Are all fields given, or is the finding an object? -/
def isComplete : Json → Bool
  | .array items => items.length == fieldNames.length
  | _ => true

def ofJson? (v : Json) : Option Finding := do
  let fields ← v.fields? fieldNames
  if !isComplete v then none
  return {
    scannerId := ← fields.required "scanner_id" Json.text?
    severity := ← fields.required "severity" Severity.ofJson?
    confidence := ← fields.required "confidence" Confidence.ofJson?
    score := ← fields.required "confidence_score" Json.score?
    title := ← fields.required "title" Json.text?
    description := ← fields.required "description" Json.text?
    locations := ← fields.required "locations" (Json.list? Location.ofJson?)
    details := ← fields.withDefault "metadata" none (Json.nullable? Details.ofJson?) }

/-- A list of findings. -/
def listToJson (fs : List Finding) : Json := .ofList toJson fs

def listOfJson? (v : Json) : Option (List Finding) := v.list? ofJson?

end Finding

end PriceTaint
