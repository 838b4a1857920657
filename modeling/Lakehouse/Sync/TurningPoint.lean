/-!
# Turning points

In a list whose first items satisfy a condition and whose others do not, the turning point is the
number of the first items. It is found by halving, which looks at few of the items; of a list that
turns more than once it finds one of the turns.

Model of `partition_point`.
-/

namespace Lakehouse.TurningPoint

variable {α : Type}

/-- Whether the item at a position satisfies a condition. -/
def holdsAt (p : α → Bool) (items : List α) (i : Nat) : Bool := items[i]?.any p

/-- Halves the `size` items from `base` on until one is left; the turn is before or behind it. -/
def narrow (p : α → Bool) (items : List α) (base size : Nat) : Nat :=
  if 1 < size then
    let middle := base + size / 2
    narrow p items (if holdsAt p items middle then middle else base) (size - size / 2)
  else base
termination_by size
decreasing_by omega

/-- The number of items before the turn. -/
def find (p : α → Bool) (items : List α) : Nat :=
  let last := narrow p items 0 items.length
  if holdsAt p items last then last + 1 else last

end Lakehouse.TurningPoint
