/-
Handles: how the parts of a program refer to each other.

A program keeps its parts in five arenas, one for each kind of part, and a handle
is a position in one of them. The kind is part of the handle's type, so a
variable cannot be looked up among the calls. Nothing says that a handle points
inside its arena: look-ups answer `none` when it does not.
-/

set_option autoImplicit false

namespace PriceTaint

/-- The kinds of parts a program has. -/
inductive Kind where
  | contract
  | function
  | node
  | call
  | variable
deriving DecidableEq, Repr

/-- The word for a kind in messages. -/
def Kind.label : Kind → String
  | .contract => "contract"
  | .function => "function"
  | .node => "node"
  | .call => "call"
  | .variable => "variable"

/-- A position in the arena of parts of one kind. -/
structure Handle (kind : Kind) where
  index : Nat
deriving DecidableEq, Repr

/-- Handles are ordered by position. -/
instance (kind : Kind) : Ord (Handle kind) := ⟨fun a b => compare a.index b.index⟩

/-- A handle as messages show it: `node#3`. -/
def Handle.show {kind : Kind} (h : Handle kind) : String :=
  kind.label ++ "#" ++ toString h.index

abbrev ContractId := Handle .contract
abbrev FunctionId := Handle .function
abbrev NodeId := Handle .node
abbrev CallId := Handle .call
abbrev VariableId := Handle .variable

end PriceTaint
