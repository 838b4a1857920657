import Lakehouse.Proofs.Sync.CheckpointStore

/-!
# What a run records

The calls of a run leave in the checkpoint store what its results say: a target that succeeded is at
the position it was brought to, a target that failed is where it was, and every other target is
where it was. It does not matter in which order the calls reach the store.

* `Services.LooksUp`: positions are looked up in a store.
* `SyncRequest.position_after_run`, `SyncRequest.position_elsewhere`: the positions of the targets
  of a request, and of all others, after a run.
* `SyncRequest.after_run_perm`: the store after the calls of a run, in any order.
-/

namespace Lakehouse

/-- Looking up a position fails, or answers what a store holds. -/
def Services.LooksUp (s : Services) (store : CheckpointStore) : Prop :=
  ∀ basePath format position, s.lookUp basePath format = .ok position →
    position = store.get? basePath format

theorem Services.withStore_looksUp (openSource : TableDescriptor → Except Fault Source)
    (openTarget : TableDescriptor → Except Fault Target) (store : CheckpointStore) :
    (Services.withStore openSource openTarget store).LooksUp store := by
  intro basePath format position h
  cases h
  rfl

/-- The position of a target with an outcome: where it was brought to, or where it was before. -/
def TargetOutcome.position (before : Option Checkpoint) : TargetOutcome → Option Checkpoint
  | .succeeded c => some c
  | .failed _ => before

theorem CheckpointStore.get?_congr (store : CheckpointStore) {t : TableDescriptor}
    {basePath format : String} (h : t.isAt basePath format = true) :
    store.get? basePath format = store.get? t.basePath t.format := by
  obtain ⟨rfl, hf⟩ := TableDescriptor.isAt_iff.mp h
  simp only [get?, hf]

namespace TableRun

variable {r : SyncRequest} {s : Services} {source : Source}
  {becomes : Slot Pending → Slot Pending} {changeCalls snapshotCalls : List Call} {p : Prepared}
  {store : CheckpointStore} {basePath format : String}

/-! ## One target -/

theorem get?_recordCalls (store : CheckpointStore) {q : Pending}
    (hat : q.table.isAt basePath format = true) (committed : Except Fault Checkpoint) :
    (store.after s (recordCalls q committed)).get? basePath format =
      (finish q (recordedAt s q committed)).outcome.position (store.get? basePath format) := by
  cases committed with
  | error f => rfl
  | ok c =>
    show (CheckpointStore.afterCall s store (.record q.table c)).get? basePath format =
      (finish q (s.recorded q.table c >>= fun _ => Except.ok c)).outcome.position _
    simp only [CheckpointStore.afterCall]
    cases s.recorded q.table c with
    | error f => rfl
    | ok u =>
      obtain ⟨hb, hf⟩ := TableDescriptor.isAt_iff.mp hat
      simp only
      rw [CheckpointStore.get?_put, if_pos ⟨hb.symm, hf.symm⟩]
      rfl

theorem get?_recordCalls_ok {q : Pending} (hat : q.table.isAt basePath format = true)
    {c : Checkpoint} (hc : s.recorded q.table c = .ok ()) :
    (store.after s (recordCalls q (.ok c))).get? basePath format = some c := by
  have hreached : recordedAt s q (.ok c) = .ok c := by
    show (s.recorded q.table c >>= fun _ => Except.ok c) = _
    rw [hc]
    rfl
  rw [get?_recordCalls store hat, hreached]
  rfl

/-- The calls of a target leave its position as its result says. A target that is up to date is
taken to be where it was. -/
theorem get?_commitCalls {q : Pending} (hat : q.table.isAt basePath format = true)
    {supply : Supply}
    (hup : ∀ c, supply = .upToDate c → store.get? basePath format = some c) :
    (store.after s (commitCalls q supply)).get? basePath format =
      (finish q (reached s q supply)).outcome.position (store.get? basePath format) := by
  cases supply with
  | snapshot snapshot => exact get?_recordCalls store hat (q.target.replaceAll snapshot)
  | changes cs => exact get?_recordCalls store hat (q.target.applyChanges cs)
  | upToDate c => exact hup c rfl
  | unread f => rfl

/-- A target takes one call at most to record a position. -/
theorem record_unique {q : Pending} {supply : Supply} {t u : TableDescriptor} {c d : Checkpoint}
    (hc : .record t c ∈ commitCalls q supply) (hd : .record u d ∈ commitCalls q supply) :
    Call.record t c = .record u d := by
  have hanswer : ∀ committed, .record t c ∈ recordCalls q committed →
      .record u d ∈ recordCalls q committed → Call.record t c = .record u d := by
    intro committed hc hd
    obtain ⟨e, hcommitted, hcall⟩ := mem_recordCalls hc
    obtain ⟨e', hcommitted', hcall'⟩ := mem_recordCalls hd
    rw [hcommitted] at hcommitted'
    cases hcommitted'
    rw [hcall, hcall']
  cases supply with
  | snapshot snapshot =>
    refine hanswer _ ((List.mem_cons.mp hc).resolve_left ?_) ((List.mem_cons.mp hd).resolve_left ?_)
    · exact nofun
    · exact nofun
  | changes cs =>
    refine hanswer _ ((List.mem_cons.mp hc).resolve_left ?_) ((List.mem_cons.mp hd).resolve_left ?_)
    · exact nofun
    · exact nofun
  | upToDate e => cases hc
  | unread f => cases hc

theorem Readied.position_after (h : Readied r s source becomes changeCalls snapshotCalls p)
    (hp : (r.prepare s).value = .ok (.ok p)) (hl : s.LooksUp store) (schedule : Schedule)
    {t : TableDescriptor} (ht : t ∈ r.targets) (hat : t.isAt basePath format = true) :
    (store.after s (r.run s schedule).calls).get? basePath format =
      (resultOf s p.snapshot p.changes (becomes (slotOf s r.mode t))).outcome.position
        (store.get? basePath format) := by
  rw [CheckpointStore.get?_after rfl, h.calls_at hp schedule ht hat]
  cases hslot : becomes (slotOf s r.mode t) with
  | error result =>
    obtain ⟨f, rfl⟩ := h.failed hslot
    rfl
  | ok q =>
    obtain ⟨rfl, -, position, hposition, hplan⟩ := h.pending hslot
    simp only [callsOf, resultOf]
    refine get?_commitCalls hat fun c hc => ?_
    -- the target was planned to go on from the position it has
    rw [supply_eq_upToDate hc] at hplan
    rw [CheckpointStore.get?_congr store hat, ← hl _ _ _ hposition]
    rcases hplan with hplan | hplan
    · exact (Plan.of_eq_incremental hplan.symm).2
    · cases hplan

/-- Of the calls of a run at most one records the position of a target. -/
theorem Readied.agree (h : Readied r s source becomes changeCalls snapshotCalls p)
    (hp : (r.prepare s).value = .ok (.ok p)) (schedule : Schedule) :
    ∀ x ∈ (r.run s schedule).calls, ∀ y ∈ (r.run s schedule).calls, CheckpointStore.Agree x y := by
  refine fun x hx y hy => CheckpointStore.agree_of_records fun t c u d hxt hyu hat => ?_
  subst hxt hyu
  -- both calls touch the second target, so they belong to its part of the run
  have hmem : ∀ call ∈ (r.run s schedule).calls, call.commitsTo u.basePath u.format = true →
      call ∈ (r.run s schedule).calls.filter (Call.commitsTo u.basePath u.format) :=
    fun call hcall hto => List.mem_filter.mpr ⟨hcall, hto⟩
  have hx' := hmem _ hx hat
  have hy' := hmem _ hy u.isAt_self
  rcases r.isAt_or_elsewhere u.basePath u.format with ⟨i, v, hv, hvat⟩ | hnone
  · rw [h.calls_at hp schedule (List.mem_of_getElem? hv) hvat] at hx' hy'
    cases hslot : becomes (slotOf s r.mode v) with
    | error result =>
      rw [hslot] at hx'
      cases hx'
    | ok q =>
      rw [hslot] at hx' hy'
      exact record_unique hx' hy'
  · rw [h.calls_elsewhere hp schedule hnone] at hx'
    cases hx'

end TableRun

open TableRun

/-! ## The whole run -/

namespace SyncRequest

variable {r : SyncRequest} {s : Services} {store : CheckpointStore} {schedule : Schedule}
  {result : TableResult} {basePath format : String}

/-- A preparation leaves the store as it is. -/
theorem after_prepare (r : SyncRequest) (s : Services) (store : CheckpointStore) :
    store.after s (r.prepare s).calls = store :=
  CheckpointStore.after_of_quiet store (guarded_prepare r s).quiet

/-- **A target is where its result says, or where it was.** -/
theorem position_after_run (hl : s.LooksUp store) (h : (r.run s schedule).value = .ok result)
    {i : Nat} {t : TableDescriptor} (ht : r.targets[i]? = some t)
    (hat : t.isAt basePath format = true) :
    ∃ ended, result.targets[i]? = some ended ∧
      (store.after s (r.run s schedule).calls).get? basePath format =
        ended.outcome.position (store.get? basePath format) := by
  rcases run_inv h with ⟨results, hp, rfl⟩ | ⟨p, hp, rfl⟩
  · obtain ⟨g, rfl⟩ := prepare_inv_failed hp
    rw [run_of_unopened hp, after_prepare]
    refine ⟨.failed t r.mode (g t), ?_, rfl⟩
    show (r.targets.map fun t => TargetResult.failed t r.mode (g t))[i]? = _
    rw [List.getElem?_map, ht]
    rfl
  · obtain ⟨source, becomes, changeCalls, snapshotCalls, hready⟩ := prepare_inv hp
    refine ⟨_, ?_, hready.position_after hp hl schedule (List.mem_of_getElem? ht) hat⟩
    show (p.slots.map (resultOf s p.snapshot p.changes))[i]? = _
    rw [hready.slots, List.getElem?_map, List.getElem?_map, ht]
    rfl

/-- The calls of a run touch no target but those of its request. -/
theorem run_calls_elsewhere (r : SyncRequest) (s : Services) (schedule : Schedule)
    (hnone : ∀ t ∈ r.targets, t.isAt basePath format = false) :
    (r.run s schedule).calls.filter (Call.commitsTo basePath format) = [] := by
  rcases r.run_eq_or_prepared s with ⟨ended, hrun⟩ | ⟨p, hp⟩
  · rw [hrun]
    exact filter_of_quiet (guarded_prepare r s).quiet
  · obtain ⟨source, becomes, changeCalls, snapshotCalls, hready⟩ := prepare_inv hp
    exact hready.calls_elsewhere hp schedule hnone

/-- **What is no target of a request keeps its position.** -/
theorem position_elsewhere (r : SyncRequest) (s : Services) (schedule : Schedule)
    (store : CheckpointStore) (hnone : ∀ t ∈ r.targets, t.isAt basePath format = false) :
    (store.after s (r.run s schedule).calls).get? basePath format =
      store.get? basePath format := by
  rw [CheckpointStore.get?_after rfl, run_calls_elsewhere r s schedule hnone]
  rfl

/-- Of the calls of a run at most one records the position of a target. -/
theorem run_calls_agree (r : SyncRequest) (s : Services) (schedule : Schedule) :
    ∀ x ∈ (r.run s schedule).calls, ∀ y ∈ (r.run s schedule).calls, CheckpointStore.Agree x y := by
  rcases r.run_eq_or_prepared s with ⟨ended, hrun⟩ | ⟨p, hp⟩
  · rw [hrun]
    exact fun x hx y _ => CheckpointStore.agree_of_not_commit ((guarded_prepare r s).quiet x hx) y
  · obtain ⟨source, becomes, changeCalls, snapshotCalls, hready⟩ := prepare_inv hp
    exact hready.agree hp schedule

/-- **The calls of a run leave the same store in any order.** -/
theorem after_run_perm (r : SyncRequest) (s : Services) (schedule : Schedule)
    (store : CheckpointStore) {calls : List Call}
    (hperm : (r.run s schedule).calls.Perm calls) :
    store.after s (r.run s schedule).calls = store.after s calls :=
  CheckpointStore.after_perm store hperm (run_calls_agree r s schedule)

/-- Another order of the commits is another order of the calls. -/
theorem run_calls_perm (r : SyncRequest) (s : Services) (schedule schedule' : Schedule) :
    (r.run s schedule).calls.Perm (r.run s schedule').calls := by
  rcases r.run_eq_or_prepared s with ⟨ended, hrun⟩ | ⟨p, hp⟩
  · rw [hrun, hrun]
  · rw [run_of_prepared hp, run_of_prepared hp]
    refine List.Perm.append_left _ (List.Perm.flatMap_right _ ?_)
    exact (schedule.work_perm p.slots).trans (schedule'.work_perm p.slots).symm

/-- Another order of the commits comes to the same result. -/
theorem run_value_eq (r : SyncRequest) (s : Services) (schedule schedule' : Schedule) :
    (r.run s schedule).value = (r.run s schedule').value := by
  rcases r.run_eq_or_prepared s with ⟨ended, hrun⟩ | ⟨p, hp⟩
  · rw [hrun, hrun]
  · rw [run_of_prepared hp, run_of_prepared hp]

end SyncRequest

end Lakehouse
