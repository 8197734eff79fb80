/-
Price reads: finding them in nodes and behind calls.

`callReads` walks through the calls of a function and, where a call goes to a
function whose body is at hand, through the calls of that function, down to a
given depth. It keeps no record of functions it has been in, so a function that is
called twice is walked through twice and recursion is cut by depth alone.

`footprint` looks at one node: the variables it assigns and the reads it makes,
directly or behind its calls. Assignments to a variable such as `balanceBefore`
only take a snapshot for a later difference, and leave no footprint.
-/
import PriceTaint.Taint.Lens

set_option autoImplicit false

namespace PriceTaint

/-- The depth to which calls are followed unless another one is given. -/
def defaultDepth : Nat := 10

/-- The built-in that reads the balance of an address. -/
def nativeBalanceName : String := "balance(address)"

/-- A price read: a call, or a built-in. -/
inductive PriceRead where
  | call (id : CallId)
  | builtin (name : String)
deriving DecidableEq, Repr

/-- The text of a read. -/
def PriceRead.render (p : Program) : PriceRead → String
  | .call id => p.callText id
  | .builtin name => name

namespace Lens

/-! ## Behind calls -/

/-- One call on the walk. If it goes by one of the names it is added to what has been
found, provided that it is admitted, and is not entered in any case. Otherwise a call
to a body is entered, and `enter` adds what is found there. -/
def collectAt (lens : Lens) (p : Program) (enter : FunctionId → Array CallId → Array CallId)
    (found : Array CallId) (id : CallId) : Array CallId :=
  match p.callAt? id with
  | none => found
  | some c =>
    match p.dispatch c, p.callMatches c lens.reads with
    | .body _ _, true => if lens.admits p c then found.push id else found
    | .body callee _, false => enter callee found
    | .member _, true => if lens.admits p c then found.push id else found
    | .member _, false => found
    | .unseen, _ => found

/-- Adds the reads among the calls of a function and, to the given depth, behind them
to what has been found. Nothing is added at depth zero. -/
def collect (lens : Lens) (p : Program) :
    (depth : Nat) → FunctionId → (found : Array CallId) → Array CallId
  | 0, _, found => found
  | depth + 1, f, found => (p.callsOf f).foldl (lens.collectAt p (lens.collect p depth)) found

/-- The reads among the calls of a function and, to the given depth, behind them,
in the order of discovery. -/
def callReads (lens : Lens) (p : Program) (depth : Nat) (f : FunctionId) : List CallId :=
  (lens.collect p depth f #[]).toList

/-! ## In nodes -/

/-- Is this the name of a variable that holds a snapshot for a difference? -/
def isSnapshotName (name : String) : Bool :=
  Text.mentions name "before" || Text.mentions name "after"

end Lens

/-- What a node assigns and what prices it reads. -/
structure Footprint where
  written : List VariableId
  reads : List PriceRead
deriving DecidableEq, Repr

/-- A node that neither assigns nor reads a price. -/
def Footprint.isEmpty (f : Footprint) : Bool := f.written.isEmpty && f.reads.isEmpty

namespace Lens

/-- Does the node take a snapshot? -/
def takesSnapshot (p : Program) (n : Node) : Bool :=
  n.shape == .assignment &&
    n.written.any fun id => (p.variableAt? id).any fun v => isSnapshotName v.name

/-- One call of a node. What goes by one of the names, to a body or to a member, is a
read if it is admitted. Behind any other call to a body all reads are taken that the
walk finds there. -/
def noteCall (lens : Lens) (p : Program) (depth : Nat) (reads : Array PriceRead) (id : CallId) :
    Array PriceRead :=
  match p.callAt? id with
  | none => reads
  | some c =>
    match p.dispatch c, p.callMatches c lens.reads with
    | .body _ _, true | .member _, true =>
      if lens.admits p c then reads.push (.call id) else reads
    | .body callee _, false => reads ++ (lens.callReads p depth callee).map PriceRead.call
    | .member _, false | .unseen, _ => reads

/-- One internal call of a node, which is a read if it is the built-in balance. -/
def noteInternal (reads : Array PriceRead) : InternalCall → Array PriceRead
  | .builtin name => if name = nativeBalanceName then reads.push (.builtin name) else reads
  | .function _ => reads

/-- What a node assigns and what prices it reads, following calls to the given
depth. The built-in balance is not counted if the node mentions the contract's own
address. -/
def footprint (lens : Lens) (p : Program) (depth : Nat) (n : Node) : Footprint :=
  if takesSnapshot p n then ⟨[], []⟩
  else
    let called := n.calls.foldl (lens.noteCall p depth) #[]
    let reads :=
      if lens.nativeBalance && !Text.contains n.text Call.selfAddress then
        n.internalCalls.foldl noteInternal called
      else called
    { written := if n.shape = .assignment then n.written else []
      reads := reads.toList }

end Lens

end PriceTaint
