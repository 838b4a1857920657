import Lakehouse.Proofs.Sync.Collaborators
import Lakehouse.Proofs.Sync.Variation

/-!
# Targets are isolated from each other

A run that came to a result has brought each target to where the result says, in the checkpoint
store too, and has recorded nothing else. The targets share no position, so the order of the commits
does not matter, and what becomes of one target is not felt by the others.

* `SyncRequest.Isolated`: what it means that a run keeps its targets apart.
* `SyncRequest.run_isolates_targets`: every run does.

About `ConversionController::sync`, which is modelled in `Sync.TableRun`.
-/

namespace Lakehouse

open TableRun

namespace SyncRequest

/-- The positions of two targets of a request without a problem are recorded apart. -/
theorem get?_put_of_ne {r : SyncRequest} (h : r.problem? = none) {i j : Nat}
    {t u : TableDescriptor} (hi : r.targets[i]? = some t) (hj : r.targets[j]? = some u)
    (hne : i ≠ j) (store : CheckpointStore) (c : Checkpoint) :
    (store.put t.basePath t.format c).get? u.basePath u.format =
      store.get? u.basePath u.format := by
  rw [CheckpointStore.get?_put, if_neg]
  rintro ⟨-, hf⟩
  exact formats_ne h hi hj hne hf.symm

/-- A run keeps its targets apart. -/
structure Isolated (r : SyncRequest) (s : Services) (schedule : Schedule) (store : CheckpointStore)
    (result : TableResult) : Prop where
  /-- No two targets share a position, whatever letters their formats are written in. -/
  apart : ∀ (i j : Nat) (t u : TableDescriptor), r.targets[i]? = some t →
    r.targets[j]? = some u → i ≠ j → ∀ (other : CheckpointStore) (c : Checkpoint),
      (other.put t.basePath t.format c).get? u.basePath u.format =
        other.get? u.basePath u.format
  /-- A target that succeeded is where it was brought to, and one that failed where it was. -/
  ended : ∀ (i : Nat) (t : TableDescriptor), r.targets[i]? = some t → ∃ ended,
    result.targets[i]? = some ended ∧
    (store.after s (r.run s schedule).calls).get? t.basePath t.format =
      ended.outcome.position (store.get? t.basePath t.format)
  /-- No other position has changed. -/
  elsewhere : ∀ basePath format, (∀ t ∈ r.targets, t.isAt basePath format = false) →
    (store.after s (r.run s schedule).calls).get? basePath format = store.get? basePath format
  /-- The targets may be committed to in any order. -/
  anyOrder : ∀ schedule', (r.run s schedule').value = .ok result ∧
    store.after s (r.run s schedule').calls = store.after s (r.run s schedule).calls
  /-- The calls may reach the store in any order. -/
  interleaved : ∀ calls, (r.run s schedule).calls.Perm calls →
    store.after s calls = store.after s (r.run s schedule).calls
  /-- What one target answers to its commits, and what comes of recording its position, changes
  neither the results nor the positions of others. -/
  others : ∀ (k : Nat) (t : TableDescriptor) (s' : Services), r.targets[k]? = some t →
    s.DifferAt t s' → ∃ result', (r.run s' schedule).value = .ok result' ∧
      (∀ i, i ≠ k → result'.targets[i]? = result.targets[i]?) ∧
      ∀ basePath format, t.isAt basePath format = false →
        (store.after s' (r.run s' schedule).calls).get? basePath format =
          (store.after s (r.run s schedule).calls).get? basePath format

variable {r : SyncRequest} {s s' : Services} {schedule : Schedule} {store : CheckpointStore}
  {result : TableResult}

theorem problem?_of_run (h : (r.run s schedule).value = .ok result) : r.problem? = none := by
  rcases run_inv h with ⟨results, hp, -⟩ | ⟨p, hp, -⟩
  · exact (prepare_inv_error hp).1
  · obtain ⟨source, becomes, changeCalls, snapshotCalls, hready⟩ := prepare_inv hp
    exact hready.sound

/-- Two runs that differ in one target record the same for all others. -/
theorem positions_alike (hl : s.LooksUp store) (h : (r.run s schedule).value = .ok result)
    {result' : TableResult} (h' : (r.run s' schedule).value = .ok result') {k : Nat}
    {t : TableDescriptor} (hk : r.targets[k]? = some t) (hd : s.DifferAt t s')
    (hresults : ∀ i, i ≠ k → result'.targets[i]? = result.targets[i]?) {basePath format : String}
    (hat : t.isAt basePath format = false) :
    (store.after s' (r.run s' schedule).calls).get? basePath format =
      (store.after s (r.run s schedule).calls).get? basePath format := by
  have hl' : s'.LooksUp store := fun b f position hp => hl b f position (hd.lookUp ▸ hp)
  rcases r.isAt_or_elsewhere basePath format with ⟨i, u, hi, huat⟩ | hnone
  · have hne : i ≠ k := by
      rintro rfl
      rw [hi] at hk
      cases hk
      rw [hat] at huat
      cases huat
    obtain ⟨ended, hended, hposition⟩ := position_after_run hl h hi huat
    obtain ⟨ended', hended', hposition'⟩ := position_after_run hl' h' hi huat
    rw [hresults i hne, hended] at hended'
    cases hended'
    rw [hposition, hposition']
  · rw [position_elsewhere r s' schedule store hnone, position_elsewhere r s schedule store hnone]

/-- **A run that comes to a result keeps its targets apart**, whatever fails in it. -/
theorem run_isolates_targets (r : SyncRequest) (s : Services) (schedule : Schedule)
    (store : CheckpointStore) (result : TableResult) (hl : s.LooksUp store)
    (h : (r.run s schedule).value = .ok result) : r.Isolated s schedule store result where
  apart _ _ _ _ hi hj hne other c := get?_put_of_ne (problem?_of_run h) hi hj hne other c
  ended _ t ht := position_after_run hl h ht t.isAt_self
  elsewhere _ _ hnone := position_elsewhere r s schedule store hnone
  anyOrder schedule' := by
    refine ⟨(run_value_eq r s schedule' schedule).trans h, ?_⟩
    exact after_run_perm r s schedule' store (run_calls_perm r s schedule' schedule)
  interleaved _ hperm := (after_run_perm r s schedule store hperm).symm
  others k t s' hk hd := by
    obtain ⟨result', h', hresults⟩ := ended_alike hd hk h
    refine ⟨result', h', hresults, fun basePath format hat => ?_⟩
    exact positions_alike hl h h' hk hd hresults hat

/-- A target that takes its commit, next to one that refuses it. -/
theorem run_isolates_refusing_target :
    let full : Fault := ⟨.updateException, "no space left"⟩
    let store := CheckpointStore.empty.put "/data/trips" "iceberg" (.second 10)
    let s := Services.withStore
      (fun _ => .ok (.ofHistory [.bare (.second 10), .bare (.second 20)]))
      (fun t => .ok (if t.format = "DELTA" then .prompt else .refusing full)) store
    let r : SyncRequest := ⟨.plain "trips" "/data/trips" "HUDI",
      [.plain "trips" "/data/trips" "DELTA", .plain "trips" "/data/trips" "iceberg"], .incremental⟩
    ∃ result, (r.run s .inOrder).value = .ok result ∧ r.Isolated s .inOrder store result ∧
      result.targets.map TargetResult.checkpoint? = [some (.second 20), none] := by
  intro full store s r
  have hl : s.LooksUp store := Services.withStore_looksUp _ _ store
  have hrun : (r.run s .inOrder).value.toOption.map (fun result =>
      result.targets.map TargetResult.checkpoint?) = some [some (.second 20), none] := by
    decide +kernel
  cases h : (r.run s .inOrder).value with
  | error halt => rw [h] at hrun; cases hrun
  | ok result =>
    rw [h] at hrun
    exact ⟨result, rfl, run_isolates_targets r s .inOrder store result hl h,
      Option.some.inj hrun⟩

end SyncRequest

end Lakehouse
