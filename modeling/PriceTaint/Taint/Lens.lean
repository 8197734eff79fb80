/-
What a detector looks for.

The two detectors share all machinery and differ in their lens alone: where the
values lie that an attacker would like to steer, which calls count as price reads,
and whether a read has to be shown to reach such a value.
-/
import PriceTaint.Taint.Dispatch

set_option autoImplicit false

namespace PriceTaint

/-- Where the values lie that an attacker would like to steer. -/
inductive Sink where
  /-- In the variables passed to calls that move funds. -/
  | movedAmounts
  /-- In the variables that a function returns. -/
  | returnedValues
deriving DecidableEq, Repr

/-- What a detector looks for. -/
structure Lens where
  sink : Sink
  /-- Whether only reads that reach a sink over the dependency edges count. If not,
  reads in a returning node are reported as they stand. -/
  needsInfluence : Bool
  /-- The calls that read a price. -/
  reads : NameSet
  /-- Whether the built-in balance of an address counts as a price read. -/
  nativeBalance : Bool
  /-- Whether balance reads count only if they ask about one holder that can be
  manipulated. -/
  poolHoldersOnly : Bool
deriving DecidableEq, Repr

namespace Lens

/-- Amounts moved by a contract that depend on a spot price. -/
def movedAmounts : Lens where
  sink := .movedAmounts
  needsInfluence := true
  reads := .spotPrices
  nativeBalance := false
  poolHoldersOnly := false

/-- Values returned by a contract that come from a spot price or a balance. -/
def returnedValues : Lens where
  sink := .returnedValues
  needsInfluence := false
  reads := .pricesAndBalances
  nativeBalance := true
  poolHoldersOnly := true

/-- Does a call that goes by one of the names count as a read? -/
def admits (lens : Lens) (p : Program) (c : Call) : Bool :=
  if c.readsOwnBalance then false
  else if lens.poolHoldersOnly && p.callMatches c .balances then
    c.arguments.length == 1 && p.asksPoolHolder c
  else true

end Lens

end PriceTaint
