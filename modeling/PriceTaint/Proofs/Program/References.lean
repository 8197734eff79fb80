/-
What a valid program promises to those who walk through it.

A walk starts at a contract and goes from part to part along the handles they hold.
Validation says that none of these handles dangles and that listed nodes know their
function. `Closed` says the same in the form in which a walk uses it: whoever has
found a part finds everything that the part refers to.
-/
import PriceTaint.Proofs.Program.Validation
import PriceTaint.Proofs.Sequences

set_option autoImplicit false

namespace PriceTaint

namespace Program

/-- A program that validates has no fault. -/
theorem not_hasFault_of_validate {p : Program} (hp : p.validate = .ok ()) (fault : Fault) :
    ¬ p.HasFault fault := by
  rw [← p.mem_faults_iff]
  rw [validate] at hp
  cases hfaults : p.faults with
  | nil => exact List.not_mem_nil
  | cons f fs =>
    rw [hfaults] at hp
    cases hp

/-- No handle that a part of a valid program holds dangles. -/
theorem lt_count_of_validate {p : Program} (hp : p.validate = .ok ()) {holder : Holder}
    {kind : Kind} {h : Handle kind} (href : p.Refers holder h) : h.index < p.count kind :=
  Nat.lt_of_not_le fun hout => not_hasFault_of_validate hp _ (.dangling href hout)

/-- Whoever has found a part of the program finds all that the part refers to, and a
node that a function lists knows its function. -/
structure Closed (p : Program) : Prop where
  callable : ∀ {id c f}, p.contractAt? id = some c → f ∈ c.functions →
    ∃ function, p.functionAt? f = some function
  declared : ∀ {id c f}, p.contractAt? id = some c → f ∈ c.declared →
    ∃ function, p.functionAt? f = some function
  home : ∀ {id f}, p.functionAt? id = some f → ∃ contract, p.contractAt? f.contract = some contract
  listed : ∀ {id f n}, p.functionAt? id = some f → n ∈ f.nodes →
    ∃ node, p.nodeAt? n = some node ∧ node.owner = id
  returned : ∀ {id f v}, p.functionAt? id = some f → v ∈ f.returns →
    ∃ x, p.variableAt? v = some x
  called : ∀ {id n c}, p.nodeAt? id = some n → c ∈ n.calls → ∃ call, p.callAt? c = some call
  written : ∀ {id n v}, p.nodeAt? id = some n → v ∈ n.written → ∃ x, p.variableAt? v = some x
  read : ∀ {id n v}, p.nodeAt? id = some n → v ∈ n.read → ∃ x, p.variableAt? v = some x
  target : ∀ {id c f}, p.callAt? id = some c → c.callee = .resolved (.function f) →
    ∃ function, p.functionAt? f = some function
  argument : ∀ {id c a v}, p.callAt? id = some c → a ∈ c.arguments →
    operandVariable? a.operand = some v → ∃ x, p.variableAt? v = some x

/-- What validation accepts is closed. -/
theorem closed_of_validate {p : Program} (hp : p.validate = .ok ()) : p.Closed where
  callable hc hf := Array.exists_getElem?_of_lt (lt_count_of_validate hp (.callable hc hf))
  declared hc hf := Array.exists_getElem?_of_lt (lt_count_of_validate hp (.declared hc hf))
  home hf := Array.exists_getElem?_of_lt (lt_count_of_validate hp (.home hf))
  listed {id f n} hf hn := by
    obtain ⟨node, hnode⟩ := Array.exists_getElem?_of_lt (lt_count_of_validate hp (.listed hf hn))
    refine ⟨node, hnode, ?_⟩
    by_contra howner
    exact not_hasFault_of_validate hp _ (.nodeOwner hf hn hnode howner)
  returned hf hv := Array.exists_getElem?_of_lt (lt_count_of_validate hp (.returned hf hv))
  called hn hc := Array.exists_getElem?_of_lt (lt_count_of_validate hp (.called hn hc))
  written hn hv := Array.exists_getElem?_of_lt (lt_count_of_validate hp (.written hn hv))
  read hn hv := Array.exists_getElem?_of_lt (lt_count_of_validate hp (.read hn hv))
  target hc hf := Array.exists_getElem?_of_lt (lt_count_of_validate hp (.target hc hf))
  argument {id c a v} hc ha hv := by
    have hin : v.index < p.count .variable := by
      rcases (operandVariable?_eq_some_iff a.operand v).mp hv with h | h
      · exact lt_count_of_validate hp (.argument hc ha h)
      · exact lt_count_of_validate hp (.wrapped hc ha h)
    exact Array.exists_getElem?_of_lt hin

end Program

end PriceTaint
