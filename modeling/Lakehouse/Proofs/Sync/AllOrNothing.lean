import Lakehouse.Proofs.Sync.Settlement

/-!
# A run attempts all targets or none

Before its commits a run may be stopped, by a fatal fault or a crash, and then no target was touched
and no position recorded. From its commits on nothing stops it, and every target has its result.

* `TargetResult.address`, `TableDescriptor.address`: which target a result or a table is about.
* `TableRun.Readied.result_address`: the result of a target names it.
* `SyncRequest.run_attempts_all_or_none`: both sides together.

About `ConversionController::sync`, which is modelled in `Sync.TableRun`.
-/

namespace Lakehouse

/-- The target that a table is: its base path and its format. -/
def TableDescriptor.address (t : TableDescriptor) : String × String := (t.basePath, t.format)

/-- The target that a result is about. -/
def TargetResult.address (result : TargetResult) : String × String :=
  (result.basePath, result.format)

namespace TableRun

variable {r : SyncRequest} {s : Services}

theorem finish_address (p : Pending) (ended : Except Fault Checkpoint) :
    (finish p ended).address = p.table.address := by
  cases ended with
  | ok c => rfl
  | error f => rfl

/-- The result of a target that came to the commits, or failed before, names that target. -/
theorem Readied.result_address {source : Source} {becomes : Slot Pending → Slot Pending}
    {changeCalls snapshotCalls : List Call} {p : Prepared}
    (h : Readied r s source becomes changeCalls snapshotCalls p) (t : TableDescriptor) :
    (resultOf s p.snapshot p.changes (becomes (slotOf s r.mode t))).address = t.address := by
  cases hslot : becomes (slotOf s r.mode t) with
  | ok q =>
    obtain ⟨htable, -⟩ := h.pending hslot
    simp only [resultOf]
    rw [finish_address, htable]
  | error result =>
    obtain ⟨f, rfl⟩ := h.failed hslot
    rfl

end TableRun

open TableRun

namespace SyncRequest

/-- **A run that is stopped was stopped by a fatal fault or a crash, and has committed to no target
and recorded no position. Any other run has one result for each target of the request, in the order
of the request, whatever has failed.** -/
theorem run_attempts_all_or_none (r : SyncRequest) (s : Services) (schedule : Schedule) :
    (∀ halt, (r.run s schedule).value = .error halt →
      r.MayStop s halt ∧ ∀ c ∈ (r.run s schedule).calls, c.isCommit = false) ∧
    ∀ result, (r.run s schedule).value = .ok result →
      result.targets.map TargetResult.address = r.targets.map TableDescriptor.address := by
  constructor
  · intro halt h
    cases hp : (r.prepare s).value with
    | error other =>
      rw [run_of_stopped hp] at h ⊢
      cases h
      exact ⟨(guarded_prepare r s).stop halt hp, (guarded_prepare r s).quiet⟩
    | ok x =>
      -- past the preparation there is a result
      cases x with
      | error results => rw [run_of_unopened hp] at h; cases h
      | ok p => rw [run_of_prepared hp] at h; cases h
  · intro result h
    rcases run_inv h with ⟨results, hp, rfl⟩ | ⟨p, hp, rfl⟩
    · obtain ⟨g, rfl⟩ := prepare_inv_failed hp
      show (r.targets.map fun t => TargetResult.failed t r.mode (g t)).map TargetResult.address = _
      rw [List.map_map]
      rfl
    · obtain ⟨source, becomes, changeCalls, snapshotCalls, hready⟩ := prepare_inv hp
      show (p.slots.map (resultOf s p.snapshot p.changes)).map TargetResult.address = _
      rw [hready.slots, List.map_map, List.map_map]
      exact List.map_congr_left fun t _ => hready.result_address t

end SyncRequest

end Lakehouse
