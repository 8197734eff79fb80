/-
The names by which calls and contracts are recognised.

Matching is exact: the case of letters counts, and a name with parameter types is
a different name. The sets are the whole knowledge that the analysis has about
the outside world.
-/

set_option autoImplicit false

namespace PriceTaint

/-- A labelled list of names. -/
structure NameSet where
  label : String
  names : List String
deriving DecidableEq, Repr

namespace NameSet

/-- Is the name in the set? -/
def contains (s : NameSet) (name : String) : Bool := List.contains s.names name

/-- Are all names of the set among the declared ones? -/
def coveredBy (s : NameSet) (declared : List String) : Bool :=
  s.names.all fun name => declared.contains name

/-- Reads of a spot price: reserves and quotes. -/
def spotPrices : NameSet := ⟨"oracle", ["getReserves", "getAmountsOut", "getAmountOut"]⟩

/-- Reads of a raw balance. -/
def balances : NameSet := ⟨"balance", ["balanceOf(address)", "balance", "balanceOf"]⟩

/-- Reads of a spot price or of a raw balance. -/
def pricesAndBalances : NameSet :=
  ⟨"return",
    ["getReserves", "getAmountsOut", "getAmountOut", "balanceOf(address)", "balance", "balanceOf"]⟩

/-- Calls that move funds; their arguments carry the amount. -/
def fundMovements : NameSet :=
  ⟨"dangerous-fund-ops",
    ["transfer", "transferFrom", "safeTransfer", "safeTransferFrom", "_transfer", "mint", "_mint",
      "burn", "_burn", "burnFrom", "sendValue"]⟩

/-- Libraries and reference contracts that never consume a price. -/
def knownSafe : NameSet :=
  ⟨"known-safe",
    ["SafeMath", "SafeERC20", "Address", "Math", "Context", "Ownable", "ERC20", "ERC20Upgradeable",
      "ERC20Burnable", "UniswapV2ERC20", "UniswapV2Pair", "UniswapV2Factory", "UniswapV2Library",
      "UniswapV2OracleLibrary", "PancakeLibrary", "PancakePair", "FixedPoint", "UQ112x112"]⟩

/-- The functions of an exchange pair. -/
def pairSurface : NameSet :=
  ⟨"amm-pair", ["getReserves", "mint", "burn", "swap", "skim", "sync", "initialize"]⟩

/-- The functions of an exchange router. -/
def routerSurface : NameSet :=
  ⟨"amm-router",
    ["addLiquidity", "removeLiquidity", "swapExactTokensForTokens", "swapTokensForExactTokens",
      "quote", "getAmountOut", "getAmountIn", "getAmountsOut", "getAmountsIn"]⟩

/-- All sets above. -/
def all : List NameSet :=
  [spotPrices, balances, pricesAndBalances, fundMovements, knownSafe, pairSurface, routerSurface]

/-- The set with a given label. -/
def named? (label : String) : Option NameSet := all.find? fun s => s.label == label

end NameSet

/-- A contract that declares all functions of a pair or of a router is itself the
source of prices. -/
def isExchange (declared : List String) : Bool :=
  NameSet.pairSurface.coveredBy declared || NameSet.routerSurface.coveredBy declared

end PriceTaint
