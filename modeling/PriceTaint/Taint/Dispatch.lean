/-
How a call is seen by the analysis.

A call goes to a function whose body is at hand, to a member of some receiver that
is known by name only, or to something the analysis does not look into. All
questions about calls answer `false` where nothing can be seen.
-/
import PriceTaint.Program.Basic
import PriceTaint.Taint.NameSet
import PriceTaint.Text.Words

set_option autoImplicit false

namespace PriceTaint

/-- Where a call goes. -/
inductive Dispatch where
  /-- To a function of the program that is not a modifier. -/
  | body (id : FunctionId) (function : Function)
  /-- To a member known by name. -/
  | member (name : String)
  | unseen
deriving DecidableEq, Repr

namespace Program

/-- Where a call goes. -/
def dispatch (p : Program) (c : Call) : Dispatch :=
  match c.callee with
  | .resolved (.function id) =>
    match p.functionAt? id with
    | some f => if f.isModifier then .unseen else .body id f
    | none => .unseen
  | .member name => .member name
  | _ => .unseen

/-- Does the call go to a function whose body is at hand? -/
def hasBody (p : Program) (c : Call) : Bool :=
  match p.dispatch c with
  | .body _ _ => true
  | _ => false

/-- Does the call go by a name of the set? A function goes by its name and by its
signature, and a built-in by its name. -/
def callMatches (p : Program) (c : Call) (names : NameSet) : Bool :=
  match p.dispatch c with
  | .body _ f => names.contains f.name || names.contains f.signature
  | .member name => names.contains name
  | .unseen =>
    match c.callee with
    | .resolved (.builtin name) => names.contains name
    | _ => false

end Program

namespace Call

/-- How a contract refers to its own address. -/
def selfAddress : String := "address(this)"

/-- Does the call ask only about the contract's own holdings? -/
def readsOwnBalance (c : Call) : Bool :=
  match c.arguments with
  | [only] => only.text == selfAddress
  | _ => false

end Call

/-- Can an attacker move funds into the holder that the first argument names? That
is a state variable, which usually keeps the address of a pair, or anything that
is called a pair. -/
def Program.asksPoolHolder (p : Program) (c : Call) : Bool :=
  match c.arguments with
  | [] => false
  | a :: _ =>
    Text.mentions a.text "pair" ||
      match a.operand with
      | .variable id => (p.variableAt? id).any Variable.isState
      | .wrapped id => (p.variableAt? id).any fun v => v.isState || Text.mentions v.name "pair"
      | .computed => false

end PriceTaint
