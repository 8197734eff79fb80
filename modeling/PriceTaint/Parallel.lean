/-
Work that is done side by side.

Every piece of work is started on its own, and the outcomes are waited for in the
order in which the work was handed out. So they do not tell which piece was done
first.
-/
set_option autoImplicit false

namespace PriceTaint

/-- The outcomes of doing the same work on every member of a list, side by side. -/
def inParallel {α β : Type} (work : α → β) (xs : List α) : List β :=
  (xs.map fun x => Task.spawn fun _ => work x).map Task.get

/-- Waiting for what was started is doing it. -/
theorem inParallel_eq_map {α β : Type} (work : α → β) (xs : List α) :
    inParallel work xs = xs.map work := by
  rw [inParallel, List.map_map]
  rfl

/-- Outcomes that are not there may be dropped while they come in, or at the end. -/
theorem filterMap_id_inParallel {α β : Type} (work : α → Option β) (xs : List α) :
    (inParallel work xs).filterMap id = xs.filterMap work := by
  rw [inParallel_eq_map, List.filterMap_map]
  rfl

end PriceTaint
