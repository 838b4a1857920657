import Lakehouse.Sync.Schedule
import Mathlib.Data.List.Nodup

/-!
# Any order of work

Whatever the order in which the items of a list are worked on, each is worked on once, at its own
position, and the results go back into the order of the list.

* `Schedule.mem_work`: the work is the items at their positions.
* `Schedule.flatMap_work`: what only one item gives does not depend on the order of the work.
* `Schedule.placed_work_zipIdx`, `Schedule.placed_work`: the results are those of the list.
-/

namespace Lakehouse

namespace Schedule

variable {α β γ : Type} (schedule : Schedule) {items : List α}

theorem work_perm (items : List α) : (schedule.work items).Perm items.zipIdx :=
  schedule.perm items.zipIdx

theorem mem_work {x : α} {i : Nat} : (x, i) ∈ schedule.work items ↔ items[i]? = some x := by
  rw [(schedule.work_perm items).mem_iff, List.mk_mem_zipIdx_iff_getElem?]

/-- No position is worked on twice. -/
theorem nodup_work (items : List α) : ((schedule.work items).map Prod.snd).Nodup := by
  rw [((schedule.work_perm items).map Prod.snd).nodup_iff, List.zipIdx_map_snd]
  exact List.nodup_range'

/-- The work on one item stands among the work on others. -/
theorem work_split {x : α} {i : Nat} (hx : items[i]? = some x) :
    ∃ front back, schedule.work items = front ++ (x, i) :: back ∧
      ∀ w ∈ front ++ back, items[w.2]? = some w.1 ∧ w.2 ≠ i := by
  obtain ⟨front, back, hwork⟩ := List.append_of_mem ((schedule.mem_work).mpr hx)
  refine ⟨front, back, hwork, fun w hw => ⟨?_, fun heq => ?_⟩⟩
  · refine (schedule.mem_work (x := w.1) (i := w.2)).mp ?_
    rw [hwork]
    rcases List.mem_append.mp hw with hw | hw
    · exact List.mem_append_left _ hw
    · exact List.mem_append_right _ (List.mem_cons_of_mem _ hw)
  · have hnodup := schedule.nodup_work items
    rw [hwork, List.map_append, List.map_cons, List.nodup_middle, List.nodup_cons,
      ← List.map_append] at hnodup
    exact hnodup.1 (List.mem_map.mpr ⟨w, hw, heq⟩)

/-- If the work on all but one item gives nothing, the work on all items gives what that one
does. -/
theorem flatMap_work {g : α × Nat → List β} {x : α} {i : Nat} (hx : items[i]? = some x)
    (hnil : ∀ y j, items[j]? = some y → j ≠ i → g (y, j) = []) :
    (schedule.work items).flatMap g = g (x, i) := by
  obtain ⟨front, back, hwork, hothers⟩ := schedule.work_split hx
  have hfront : front.flatMap g = [] := by
    rw [List.flatMap_eq_nil_iff]
    intro w hw
    obtain ⟨hget, hne⟩ := hothers w (List.mem_append_left _ hw)
    exact hnil w.1 w.2 hget hne
  have hback : back.flatMap g = [] := by
    rw [List.flatMap_eq_nil_iff]
    intro w hw
    obtain ⟨hget, hne⟩ := hothers w (List.mem_append_right _ hw)
    exact hnil w.1 w.2 hget hne
  rw [hwork, List.flatMap_append, List.flatMap_cons, hfront, hback, List.nil_append,
    List.append_nil]

/-- The result for a position is that of the item there. -/
theorem lookup_work (f : α × Nat → β) (i : Nat) :
    ((schedule.work items).map fun w => (w.2, f w)).lookup i = (items.zipIdx.map f)[i]? := by
  rw [List.getElem?_map, List.getElem?_zipIdx, Nat.zero_add]
  cases hx : items[i]? with
  | none =>
    rw [Option.map_none, Option.map_none, List.lookup_eq_none_iff]
    intro e he
    obtain ⟨w, hw, rfl⟩ := List.mem_map.mp he
    have hget : items[w.2]? = some w.1 := (schedule.mem_work).mp hw
    rw [bne_iff_ne]
    rintro rfl
    rw [hx] at hget
    cases hget
  | some x =>
    obtain ⟨front, back, hwork, hothers⟩ := schedule.work_split hx
    rw [Option.map_some, Option.map_some, List.lookup_eq_some_iff]
    refine ⟨front.map fun w => (w.2, f w), back.map fun w => (w.2, f w), ?_, fun e he => ?_⟩
    · rw [hwork, List.map_append, List.map_cons]
    · obtain ⟨w, hw, rfl⟩ := List.mem_map.mp he
      rw [bne_iff_ne]
      exact (hothers w (List.mem_append_left _ hw)).2.symm

end Schedule

theorem filterMap_getElem? {α : Type} (xs : List α) :
    (List.range xs.length).filterMap (fun i => xs[i]?) = xs := by
  induction xs with
  | nil => rfl
  | cons x xs ih =>
    rw [List.length_cons, List.range_succ_eq_map, List.filterMap_cons, List.filterMap_map]
    exact congrArg (x :: ·) ih

/-- **The results of a list, worked on in any order, are in the order of the list**, also where a
result depends on the position of its item. -/
theorem Schedule.placed_work_zipIdx {α β : Type} (schedule : Schedule) (items : List α)
    (f : α × Nat → β) :
    placed items.length ((schedule.work items).map fun w => (w.2, f w)) = items.zipIdx.map f := by
  unfold placed
  calc (List.range items.length).filterMap
          (fun i => ((schedule.work items).map fun w => (w.2, f w)).lookup i)
      = (List.range (items.zipIdx.map f).length).filterMap fun i => (items.zipIdx.map f)[i]? := by
        rw [List.length_map, List.length_zipIdx]
        exact congrArg (fun g => (List.range items.length).filterMap g)
          (funext fun i => schedule.lookup_work f i)
    _ = items.zipIdx.map f := filterMap_getElem? (items.zipIdx.map f)

theorem map_zipIdx_fst {α β : Type} (items : List α) (f : α → β) :
    items.zipIdx.map (fun w => f w.1) = items.map f := by
  calc items.zipIdx.map (fun w => f w.1)
      = (items.zipIdx.map Prod.fst).map f := by rw [List.map_map]; rfl
    _ = items.map f := by rw [List.zipIdx_map_fst]

theorem Schedule.placed_work {α β : Type} (schedule : Schedule) (items : List α) (f : α → β) :
    placed items.length ((schedule.work items).map fun w => (w.2, f w.1)) = items.map f := by
  rw [schedule.placed_work_zipIdx items fun w => f w.1, map_zipIdx_fst]

end Lakehouse
