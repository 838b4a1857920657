/-!
# Schedules

Work that may be done in any order has its results put back into the order in which it was asked
for.

* `Schedule` — an order to work in.
* `Schedule.work` — the positions of a list with its items, in the order of a schedule.
* `placed` — the results of all positions, in the order of the positions.

Stands for work that completes in any order and is sorted back: the targets of `sync_table` and the
tables of `run_batch`. Left out: how much of it is under way at once.
-/

namespace Lakehouse

/-- An order to work in: it moves the items of a list about and neither loses nor repeats any. -/
structure Schedule where
  arrange : {α : Type} → List α → List α
  perm : ∀ {α : Type} (items : List α), (arrange items).Perm items

namespace Schedule

/-- The order of the list. -/
def inOrder : Schedule := ⟨id, fun items => List.Perm.refl items⟩

/-- Items with their positions, in the order of a schedule. -/
def work {α : Type} (s : Schedule) (items : List α) : List (α × Nat) := s.arrange items.zipIdx

end Schedule

/-- The results of the first `n` positions, in the order of the positions. -/
def placed {α : Type} (n : Nat) (results : List (Nat × α)) : List α :=
  (List.range n).filterMap fun i => results.lookup i

end Lakehouse
