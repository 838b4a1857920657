import Lakehouse.Sync.TurningPoint

/-!
# The turning point of a list that turns once

`TurningPoint.find` looks at few of the items of a list. Where every item in front of one that
satisfies the condition satisfies it too, it nevertheless finds where all of them stop.

* `TurningPoint.holdsAt_iff_lt_find`: the items in front of the turning point, and no others,
  satisfy the condition.
* `TurningPoint.drop_find`: what is behind the turning point is what fails the condition.
-/

namespace Lakehouse.TurningPoint

variable {α : Type} {p : α → Bool} {items : List α}

/-- Every item in front of one that satisfies the condition satisfies it. -/
def TurnsOnce (p : α → Bool) (items : List α) : Prop :=
  items.Pairwise fun x y => p y = true → p x = true

theorem holdsAt_iff {i : Nat} :
    holdsAt p items i = true ↔ ∃ x, items[i]? = some x ∧ p x = true := by
  unfold holdsAt
  rw [Option.any_eq_true]

theorem holdsAt_of_le (ht : TurnsOnce p items) {i j : Nat} (hij : i ≤ j)
    (hj : holdsAt p items j = true) : holdsAt p items i = true := by
  rcases Nat.eq_or_lt_of_le hij with rfl | hij
  · exact hj
  · obtain ⟨y, hy, hpy⟩ := holdsAt_iff.mp hj
    obtain ⟨hlt, rfl⟩ := List.getElem?_eq_some_iff.mp hy
    have hi : i < items.length := Nat.lt_trans hij hlt
    have hpx : p items[i] = true := List.pairwise_iff_getElem.mp ht i j hi hlt hij hpy
    exact holdsAt_iff.mpr ⟨items[i], List.getElem?_eq_getElem hi, hpx⟩

/-- Halving keeps the turn among the items that are left: the first of them satisfies the
condition, unless it is the first of all, and none behind them does. -/
theorem narrow_spec (ht : TurnsOnce p items) (base size : Nat)
    (hbase : base = 0 ∨ holdsAt p items base = true)
    (hrest : ∀ j, base + size ≤ j → holdsAt p items j = false) :
    (narrow p items base size = 0 ∨ holdsAt p items (narrow p items base size) = true) ∧
      ∀ j, narrow p items base size < j → holdsAt p items j = false := by
  induction size using Nat.strongRecOn generalizing base with
  | ind size ih =>
    rw [narrow]
    by_cases hsize : 1 < size
    · simp only [if_pos hsize]
      by_cases hmid : holdsAt p items (base + size / 2) = true
      · rw [if_pos hmid]
        exact ih _ (by omega) _ (Or.inr hmid) fun j hj => hrest j (by omega)
      · rw [if_neg hmid]
        refine ih _ (by omega) _ hbase fun j hj => ?_
        rw [Bool.eq_false_iff]
        intro hj'
        exact hmid (holdsAt_of_le ht (by omega) hj')
    · rw [if_neg hsize]
      exact ⟨hbase, fun j hj => hrest j (by omega)⟩

/-- **The items in front of the turning point, and no others, satisfy the condition.** -/
theorem holdsAt_iff_lt_find (ht : TurnsOnce p items) (i : Nat) :
    holdsAt p items i = true ↔ i < find p items := by
  obtain ⟨hlast, hrest⟩ := narrow_spec ht 0 items.length (Or.inl rfl) fun j hj => by
    unfold holdsAt
    rw [List.getElem?_eq_none (by omega), Option.any_none]
  unfold find
  by_cases hl : holdsAt p items (narrow p items 0 items.length) = true
  · simp only [if_pos hl]
    constructor
    · intro hi
      rcases Nat.lt_or_ge (narrow p items 0 items.length) i with hlt | hle
      · rw [hrest i hlt] at hi
        exact absurd hi Bool.false_ne_true
      · exact Nat.lt_succ_of_le hle
    · intro hi
      exact holdsAt_of_le ht (Nat.le_of_lt_succ hi) hl
  · simp only [if_neg hl]
    rcases hlast with h0 | hlast
    · rw [h0] at hl hrest ⊢
      constructor
      · intro hi
        rcases Nat.eq_zero_or_pos i with rfl | hpos
        · exact absurd hi hl
        · rw [hrest i hpos] at hi
          exact absurd hi Bool.false_ne_true
      · intro hi
        exact absurd hi (Nat.not_lt_zero i)
    · exact absurd hlast hl

/-- **What is behind the turning point is what fails the condition.** -/
theorem drop_find (ht : TurnsOnce p items) :
    items.drop (find p items) = items.filter fun x => !p x := by
  have hfront : (items.take (find p items)).filter (fun x => !p x) = [] := by
    rw [List.filter_eq_nil_iff]
    intro x hx hpx
    obtain ⟨i, hi, rfl⟩ := List.mem_take_iff_getElem.mp hx
    obtain ⟨y, hy, hpy⟩ := holdsAt_iff.mp ((holdsAt_iff_lt_find ht i).mpr (by omega))
    rw [List.getElem?_eq_getElem (by omega), Option.some.injEq] at hy
    rw [hy, hpy] at hpx
    exact Bool.noConfusion hpx
  have hback : (items.drop (find p items)).filter (fun x => !p x) =
      items.drop (find p items) := by
    rw [List.filter_eq_self]
    intro x hx
    obtain ⟨i, hi, rfl⟩ := List.mem_drop_iff_getElem.mp hx
    rw [Bool.not_eq_true', Bool.eq_false_iff]
    intro hpx
    have hbound : find p items + i < items.length := by omega
    have hlt := (holdsAt_iff_lt_find ht (find p items + i)).mp
      (holdsAt_iff.mpr ⟨_, List.getElem?_eq_getElem hbound, hpx⟩)
    omega
  calc items.drop (find p items)
      = (items.take (find p items)).filter (fun x => !p x)
          ++ (items.drop (find p items)).filter (fun x => !p x) := by
        rw [hfront, hback, List.nil_append]
    _ = items.filter fun x => !p x := by
        rw [← List.filter_append, List.take_append_drop]

end Lakehouse.TurningPoint
