/-
Contracts that are not analysed, and why.

The reasons are tried in a fixed order and the first that applies is given: a
contract that does not exist, one that is known to be safe, an interface, an
exchange, and last a contract that is called a router.
-/
import PriceTaint.Program.Basic
import PriceTaint.Taint.NameSet
import PriceTaint.Text.Words

set_option autoImplicit false

namespace PriceTaint

/-- Why a contract is not analysed. -/
inductive Exemption where
  | missing
  | knownSafe
  | isInterface
  | exchange
  | routerName
deriving DecidableEq, Repr

/-- The reason in words. -/
def Exemption.describe : Exemption → String
  | .missing => "no such contract"
  | .knownSafe => "known safe contract"
  | .isInterface => "interface"
  | .exchange => "implements the AMM pair or router interface"
  | .routerName => "router by name"

/-- Is the contract called a router? -/
def Contract.isNamedRouter (c : Contract) : Bool :=
  Text.contains c.name "Router" || Text.contains c.name "router"

/-- Why a contract is not analysed; `none` if it is. -/
def Program.exemption? (p : Program) (id : ContractId) : Option Exemption :=
  match p.contractAt? id with
  | none => some .missing
  | some c =>
    if NameSet.knownSafe.contains c.name then some .knownSafe
    else if c.isInterface then some .isInterface
    else if isExchange (p.declaredNames id) then some .exchange
    else if c.isNamedRouter then some .routerName
    else none

end PriceTaint
