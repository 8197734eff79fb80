/-
The two detectors.

A detector is a lens together with the way its findings are presented. It goes
through the contracts in order and reports on each that is not exempt and has a
flow left to report; every report becomes one finding.
-/
import PriceTaint.Finding.Basic
import PriceTaint.Parallel
import PriceTaint.Taint.Exemption
import PriceTaint.Taint.Report

set_option autoImplicit false

namespace PriceTaint

/-- How a detector presents itself and its findings. -/
structure Profile where
  id : String
  name : String
  help : String
  severity : Severity
  confidence : Confidence
  wikiTitle : String
  wikiDescription : String
  exploitScenario : String
  recommendation : String
deriving DecidableEq, Repr

/-- A detector. -/
structure Detector where
  profile : Profile
  lens : Lens
  depth : Nat := defaultDepth
  oncePerNode : Bool := true
deriving DecidableEq, Repr

namespace Detector

/-! ## The detectors -/

def wikiTitle : String := "The risk of price manipulation in DeFi projects"

def wikiDescription : String :=
  "Price manipulation is a common attack in DeFi projects. " ++
  "Spot reserves, AMM quotes and raw token balances can be moved within a single transaction, " ++
  "for example with a flash loan."

/-- Finds amounts of fund movements that depend on a spot price. -/
def movedAmounts : Detector where
  profile := {
    id := "price-manipulation-high"
    name := "Price Manipulation (dependent transfer)"
    help := "Transferred, minted or burned amounts derived from manipulable spot prices"
    severity := .high
    confidence := .medium
    wikiTitle := wikiTitle
    wikiDescription := wikiDescription
    exploitScenario :=
      "An attacker skews the pair reserves with a flash loan right before calling " ++
      "the function. The amount passed to `transferFrom` is computed from `getReserves`, so the " ++
      "attacker receives more tokens than the position is worth and restores the pool afterwards."
    recommendation :=
      "Do not derive amounts from spot reserves or router quotes. Use a " ++
      "time-weighted average price or an external oracle with deviation and freshness checks." }
  lens := .movedAmounts

/-- Finds returned values that come from a spot price or a balance. -/
def returnedValues : Detector where
  profile := {
    id := "price-manipulation-info"
    name := "Price Manipulation (tainted return)"
    help := "Return values derived from spot-price or manipulable balance reads"
    severity := .informational
    confidence := .medium
    wikiTitle := wikiTitle
    wikiDescription := wikiDescription
    exploitScenario :=
      "A view function returns `pair.getReserves()` or `token.balanceOf(pair)`. " ++
      "Anyone can swap against or donate to the pair, so integrators that price collateral with " ++
      "this value can be manipulated."
    recommendation :=
      "Track balances internally or validate returned values against an " ++
      "independent price source before other contracts rely on them." }
  lens := .returnedValues

/-! ## Detection -/

/-- The analysis that a detector carries out. -/
def analysis (d : Detector) (p : Program) (influence : Influence) : Analysis :=
  ⟨p, d.lens, influence, d.depth⟩

/-- The report on one contract, if there is anything to report. -/
def reportOn (d : Detector) (p : Program) (influence : Influence) (id : ContractId) :
    Option ContractReport :=
  match p.contractAt? id, p.exemption? id with
  | some c, none =>
    ContractReport.ofFlows? p id ((d.analysis p influence).flowsOf c.functions) d.oncePerNode
  | _, _ => none

/-- The reports on all contracts, in order. -/
def reports (d : Detector) (p : Program) (influence : Influence) : List ContractReport :=
  p.contractIds.filterMap (d.reportOn p influence)

/-- The reports on all contracts, in order, with the contracts looked at side by side. -/
def reportsInParallel (d : Detector) (p : Program) (influence : Influence) :
    List ContractReport :=
  (inParallel (d.reportOn p influence) p.contractIds).filterMap id

/-- The finding that a report becomes. -/
def finding (d : Detector) (p : Program) (r : ContractReport) : Finding where
  scannerId := d.profile.id
  severity := d.profile.severity
  confidence := d.profile.confidence
  score := d.profile.confidence.score
  title := "Potential price manipulation in '" ++ r.contractName ++ "'"
  description := r.render p
  locations := r.entries.map fun e => Location.ofNode p e.function e.node
  details := some {
    affectedFunctions := (r.entries.map fun e => p.functionName e.function).eraseDups
    affectedVariables := ((r.entries.flatMap Entry.involved).map p.variableName).eraseDups
    affectedContracts := [r.contractName]
    recommendation := some d.profile.recommendation }

end Detector

end PriceTaint
