import Lakehouse.Proofs.Sync.Planning

/-!
# A target ends by the read it needs

A target is rebuilt from the snapshot, or it goes on with the changes. Whichever it is, the other
read is none of its concern: if that fails, the target is committed all the same, and if its own
fails, so does the target, under its own label.

* `SyncRequest.IsRebuilt`: which targets are rebuilt.
* `TableRun.EndsRebuilt`, `TableRun.EndsGoingOn`: how a target ends by what it needed to read.
* `SyncRequest.ends_by_read`: every target that comes to the commits ends in one of these ways.
* `SyncRequest.run_follows_reads`: a run that nothing fatal happens to comes to a result, in which
  this holds of each target.

About `read_changes` and `input_for`, which are modelled in `Sync.TableRun`.
-/

namespace Lakehouse

open TableRun

/-- A target is rebuilt if that was asked for, if it has no position, or if the changes were asked
for and the history is no longer kept. -/
def SyncRequest.IsRebuilt (r : SyncRequest) (source : Source) (calls : List Call)
    (position : Option Checkpoint) : Prop :=
  r.mode = .full ∨ position = none ∨
    ∃ c, .changesSince r.source c ∈ calls ∧ source.changesSince c = .ok .unavailable

namespace TableRun

/-! ## The ends of a target -/

/-- How a target that is rebuilt ends: it is given the snapshot, or fails for the reason that the
source gave for having none. -/
structure EndsRebuilt (s : Services) (source : Source) (t : TableDescriptor) (target : Target)
    (commits : List Call) (ended : TargetResult) : Prop where
  read : ∀ snapshot, source.snapshot = .ok snapshot →
    commits = commitCalls ⟨t, target, .full⟩ (.snapshot snapshot) ∧
      ended = finish ⟨t, target, .full⟩ (reached s ⟨t, target, .full⟩ (.snapshot snapshot))
  failed : ∀ halt, source.snapshot = .error halt →
    ∃ f, halt = .fault f ∧ commits = [] ∧ ended = .failed t .full f

/-- How a target that goes on from a position ends: it is given what is behind its position of the
changes that were asked for, or fails for the reason that the source gave for having none. -/
structure EndsGoingOn (s : Services) (answer : Except Halt ChangeSet) (t : TableDescriptor)
    (target : Target) (own : Checkpoint) (commits : List Call) (ended : TargetResult) : Prop where
  read : ∀ cs, answer = .ok (.changes cs) →
    commits = commitCalls ⟨t, target, .incremental own⟩ (givenChanges own (changesAfter own cs)) ∧
      ended = finish ⟨t, target, .incremental own⟩
        (reached s ⟨t, target, .incremental own⟩ (givenChanges own (changesAfter own cs)))
  failed : ∀ halt, answer = .error halt →
    ∃ f, halt = .fault f ∧ commits = [] ∧ ended = .failed t .incremental f

/-- A target that came to the commits ends by what it needed to read, and by nothing else that the
source was asked for. -/
structure EndsByRead (r : SyncRequest) (s : Services) (source : Source) (calls : List Call)
    (t : TableDescriptor) (target : Target) (position : Option Checkpoint)
    (ended : TargetResult) : Prop where
  mode : ended.mode = .full ↔ r.IsRebuilt source calls position
  rebuilt : r.IsRebuilt source calls position → .currentSnapshot r.source ∈ calls ∧
    EndsRebuilt s source t target (calls.filter (Call.commitsTo t.basePath t.format)) ended
  goesOn : ¬ r.IsRebuilt source calls position → ∃ own since, position = some own ∧
    calls.filter Call.readsChanges = [.changesSince r.source since] ∧
    EndsGoingOn s (source.changesSince since) t target own
      (calls.filter (Call.commitsTo t.basePath t.format)) ended

theorem finish_mode (p : Pending) (committed : Except Fault Checkpoint) :
    (finish p committed).mode = p.plan.mode := by
  cases committed with
  | ok c => rfl
  | error f => rfl

/-- What a target that goes on is given of the changes that were read. -/
theorem supply_incremental (snapshot : Reading Snapshot) (own : Checkpoint) (cs : List Change) :
    supply snapshot (some (.ok cs)) (.incremental own) =
      givenChanges own (changesAfter own cs) := by
  simp only [supply]
  cases changesAfter own cs with
  | nil => rfl
  | cons x rest => rfl

variable {r : SyncRequest} {s : Services} {source : Source}
  {becomes : Slot Pending → Slot Pending} {changeCalls snapshotCalls : List Call} {p : Prepared}
  {schedule : Schedule} {t : TableDescriptor} {target : Target} {position : Option Checkpoint}
  {q : Pending} {own : Checkpoint} {slots : List (Slot Pending)} {changes : Reading (List Change)}

/-! ## What the plans ask for has been read -/

/-- **Where a target is rebuilt, the source has been asked for the snapshot.** -/
theorem Readied.snapshot_read (h : Readied r s source becomes changeCalls snapshotCalls p)
    (hq : .ok q ∈ p.slots) (hplan : q.plan = .full) :
    snapshotCalls = [.currentSnapshot r.source] ∧
      ((∃ snapshot, p.snapshot = some (.ok snapshot) ∧ source.snapshot = .ok snapshot) ∨
        ∃ f, p.snapshot = some (.error f) ∧ source.snapshot = .error (.fault f)) := by
  have hfull : Plan.full ∈ plans p.slots := mem_plans.mpr ⟨q, hq, hplan⟩
  have hread := h.snapshot
  generalize p.snapshot = snapshot at hread
  cases hread with
  | notNeeded hnone => exact absurd hfull hnone
  | read _ hs => exact ⟨rfl, .inl ⟨_, rfl, hs⟩⟩
  | failed _ hf _ => exact ⟨rfl, .inr ⟨_, rfl, hf⟩⟩

/-- **Where a target goes on from a position, the source has been asked for the changes.** -/
theorem Readied.changes_read (h : Readied r s source becomes changeCalls snapshotCalls p)
    (hq : .ok q ∈ p.slots) (hplan : q.plan = .incremental own) :
    ∃ since, changeCalls = [.changesSince r.source since] ∧
      ((∃ cs, p.changes = some (.ok cs) ∧ source.changesSince since = .ok (.changes cs)) ∨
        ∃ f, p.changes = some (.error f) ∧ source.changesSince since = .error (.fault f)) := by
  rw [h.slots] at hq
  obtain ⟨t, ht, hslot⟩ := List.mem_map.mp hq
  have hread := h.changes
  generalize p.changes = changes at hread
  cases hread with
  | notNeeded hold =>
    have hmem : own ∈ positions (r.targets.map (slotOf s r.mode)) :=
      mem_positions.mpr ⟨q, List.mem_map.mpr ⟨t, ht, hslot⟩, hplan⟩
    rw [oldest?_eq_none.mp hold] at hmem
    cases hmem
  | read _ hcs => exact ⟨_, rfl, .inl ⟨_, rfl, hcs⟩⟩
  | unavailable =>
    -- all targets are rebuilt, so none goes on
    cases hof : slotOf s r.mode t with
    | error result =>
      rw [hof] at hslot
      cases hslot
    | ok q' =>
      rw [hof] at hslot
      cases hslot
      cases hplan
  | failed _ hf _ => exact ⟨_, rfl, .inr ⟨_, rfl, hf⟩⟩

/-! ## What becomes of a plan -/

theorem mem_reads {calls : List Call} {call : Call} (hread : call.isRead = true) :
    call ∈ calls.filter Call.isRead ↔ call ∈ calls := by
  rw [List.mem_filter, and_iff_left hread]

/-- The changes were asked for in a run exactly if they were in its preparation. -/
theorem Readied.mem_changeCalls (h : Readied r s source becomes changeCalls snapshotCalls p)
    (hp : (r.prepare s).value = .ok (.ok p)) (c : Checkpoint) :
    .changesSince r.source c ∈ (r.run s schedule).calls ↔
      .changesSince r.source c ∈ changeCalls := by
  have hsnapshot : .changesSince r.source c ∉ snapshotCalls := by
    intro hmem
    have hnone := h.snapshot.filter_readsChanges
    rw [List.filter_eq_nil_iff] at hnone
    exact hnone _ hmem rfl
  rw [← mem_reads rfl, h.reads_of_run hp schedule, List.mem_append, or_iff_left hsnapshot]

theorem Readied.isRebuilt_iff (h : Readied r s source becomes changeCalls snapshotCalls p)
    (hp : (r.prepare s).value = .ok (.ok p)) :
    r.IsRebuilt source (r.run s schedule).calls position ↔
      r.IsRebuilt source changeCalls position := by
  unfold SyncRequest.IsRebuilt
  simp only [h.mem_changeCalls hp]

/-- A target that was opened and looked up is rebuilt where it has to be. -/
theorem ChangesRead.becomes_full
    (h : ChangesRead source r.source slots becomes changes changeCalls)
    (ho : s.openTarget t = .ok target) (hposition : s.position t = .ok position)
    (hrebuilt : r.IsRebuilt source changeCalls position) :
    becomes (slotOf s r.mode t) = .ok ⟨t, target, .full⟩ := by
  rw [slotOf_of_ok ho hposition]
  obtain ⟨plan, hbecomes, hkept⟩ := h.becomes_ok ⟨t, target, .of r.mode position⟩
  rcases hrebuilt with hmode | rfl | ⟨c, hasked, hunavailable⟩
  · rw [hmode] at hbecomes hkept ⊢
    rw [hbecomes, hkept.elim id id]
    rfl
  · have hof : Plan.of r.mode none = .full := by cases r.mode <;> rfl
    rw [hof] at hbecomes hkept ⊢
    rw [hbecomes, hkept.elim id id]
  · cases h with
    | notNeeded => cases hasked
    | unavailable => rfl
    | read _ hcs =>
      cases List.mem_singleton.mp hasked
      rw [hunavailable] at hcs
      cases hcs
    | failed _ hf _ =>
      cases List.mem_singleton.mp hasked
      rw [hunavailable] at hf
      cases hf

/-- Any other target goes on from its position. -/
theorem ChangesRead.becomes_incremental
    (h : ChangesRead source r.source slots becomes changes changeCalls)
    (ho : s.openTarget t = .ok target) (hposition : s.position t = .ok position)
    (hkept : ¬ r.IsRebuilt source changeCalls position) :
    ∃ own, position = some own ∧
      becomes (slotOf s r.mode t) = .ok ⟨t, target, .incremental own⟩ := by
  obtain ⟨hmode, hsome, havailable⟩ := not_or.mp hkept |>.imp_right not_or.mp
  obtain ⟨own, rfl⟩ := Option.ne_none_iff_exists'.mp hsome
  have hof : Plan.of r.mode (some own) = .incremental own := by
    cases hm : r.mode with
    | full => exact absurd hm hmode
    | incremental => rfl
  refine ⟨own, rfl, ?_⟩
  rw [slotOf_of_ok ho hposition, hof]
  cases h with
  | notNeeded => rfl
  | read => rfl
  | failed => rfl
  | unavailable _ hun => exact absurd ⟨_, List.mem_singleton_self _, hun⟩ havailable

/-! ## How a target ends -/

theorem Readied.endsRebuilt (h : Readied r s source becomes changeCalls snapshotCalls p)
    (hp : (r.prepare s).value = .ok (.ok p)) (ht : t ∈ r.targets)
    (hslot : becomes (slotOf s r.mode t) = .ok ⟨t, target, .full⟩) :
    .currentSnapshot r.source ∈ (r.run s schedule).calls ∧
      EndsRebuilt s source t target
        ((r.run s schedule).calls.filter (Call.commitsTo t.basePath t.format))
        (resultOf s p.snapshot p.changes (.ok ⟨t, target, .full⟩)) := by
  have hq : .ok ⟨t, target, .full⟩ ∈ p.slots := by
    rw [h.slots]
    exact List.mem_map.mpr ⟨t, ht, hslot⟩
  obtain ⟨hcalls, hread⟩ := h.snapshot_read hq rfl
  constructor
  · rw [← mem_reads rfl, h.reads_of_run hp, hcalls]
    exact List.mem_append_right _ (List.mem_singleton_self _)
  rw [h.calls_at hp schedule ht t.isAt_self, hslot]
  rcases hread with ⟨snapshot, hread, hs⟩ | ⟨f, hread, hs⟩
  · rw [hread]
    refine ⟨fun other hother => ?_, fun halt hhalt => ?_⟩
    · rw [hs] at hother
      cases hother
      exact ⟨rfl, rfl⟩
    · rw [hs] at hhalt
      cases hhalt
  · rw [hread]
    refine ⟨fun other hother => ?_, fun halt hhalt => ?_⟩
    · rw [hs] at hother
      cases hother
    · rw [hs] at hhalt
      cases hhalt
      exact ⟨f, rfl, rfl, rfl⟩

theorem Readied.endsGoingOn (h : Readied r s source becomes changeCalls snapshotCalls p)
    (hp : (r.prepare s).value = .ok (.ok p)) (ht : t ∈ r.targets)
    (hslot : becomes (slotOf s r.mode t) = .ok ⟨t, target, .incremental own⟩) :
    ∃ since, (r.run s schedule).calls.filter Call.readsChanges =
        [.changesSince r.source since] ∧
      EndsGoingOn s (source.changesSince since) t target own
        ((r.run s schedule).calls.filter (Call.commitsTo t.basePath t.format))
        (resultOf s p.snapshot p.changes (.ok ⟨t, target, .incremental own⟩)) := by
  have hq : .ok ⟨t, target, .incremental own⟩ ∈ p.slots := by
    rw [h.slots]
    exact List.mem_map.mpr ⟨t, ht, hslot⟩
  obtain ⟨since, hcalls, hread⟩ := h.changes_read hq rfl
  refine ⟨since, ?_, ?_⟩
  · rw [filter_readsChanges, h.reads_of_run hp, List.filter_append,
      h.snapshot.filter_readsChanges, hcalls]
    rfl
  rw [h.calls_at hp schedule ht t.isAt_self, hslot]
  rcases hread with ⟨cs, hread, hs⟩ | ⟨f, hread, hs⟩
  · refine ⟨fun other hother => ?_, fun halt hhalt => ?_⟩
    · rw [hs] at hother
      cases hother
      rw [hread, ← supply_incremental p.snapshot]
      exact ⟨rfl, rfl⟩
    · rw [hs] at hhalt
      cases hhalt
  · rw [hread]
    refine ⟨fun other hother => ?_, fun halt hhalt => ?_⟩
    · rw [hs] at hother
      cases hother
    · rw [hs] at hhalt
      cases hhalt
      exact ⟨f, rfl, rfl, rfl⟩

/-- The result of a target is that of its own part. -/
theorem Readied.result_at (h : Readied r s source becomes changeCalls snapshotCalls p) {i : Nat}
    (ht : r.targets[i]? = some t) :
    (p.slots.map (resultOf s p.snapshot p.changes))[i]? =
      some (resultOf s p.snapshot p.changes (becomes (slotOf s r.mode t))) := by
  rw [h.slots, List.getElem?_map, List.getElem?_map, ht]
  rfl

/-- A target can be rebuilt in one way only. -/
theorem EndsRebuilt.unique {commits commits' : List Call} {ended ended' : TargetResult}
    (h : EndsRebuilt s source t target commits ended)
    (h' : EndsRebuilt s source t target commits' ended') :
    ended' = ended ∧ commits' = commits := by
  cases hs : source.snapshot with
  | ok snapshot =>
    obtain ⟨rfl, rfl⟩ := h.read snapshot hs
    obtain ⟨rfl, rfl⟩ := h'.read snapshot hs
    exact ⟨rfl, rfl⟩
  | error halt =>
    obtain ⟨f, rfl, rfl, rfl⟩ := h.failed halt hs
    obtain ⟨g, hg, rfl, rfl⟩ := h'.failed _ hs
    cases hg
    exact ⟨rfl, rfl⟩

end TableRun

namespace SyncRequest

variable {r : SyncRequest} {s : Services} {source : Source} {schedule : Schedule}
  {result : TableResult} {t : TableDescriptor} {target : Target} {position : Option Checkpoint}

/-- A run with a source that came to a result was prepared. -/
theorem prepared_of_run (hs : s.openSource r.source = .ok source)
    (hrun : (r.run s schedule).value = .ok result) :
    ∃ becomes changeCalls snapshotCalls p, (r.prepare s).value = .ok (.ok p) ∧
      Readied r s source becomes changeCalls snapshotCalls p ∧
      result = .of r.source (p.slots.map (resultOf s p.snapshot p.changes)) := by
  rcases run_inv hrun with ⟨results, hp, -⟩ | ⟨p, hp, rfl⟩
  · obtain ⟨-, f, hf, -, -⟩ := prepare_inv_error hp
    rw [hs] at hf
    cases hf
  · obtain ⟨source', becomes, changeCalls, snapshotCalls, h⟩ := prepare_inv hp
    have hsource := h.opened
    rw [hs] at hsource
    cases hsource
    exact ⟨becomes, changeCalls, snapshotCalls, p, hp, h, rfl⟩

/-- Without a source every target fails, and nothing is committed. -/
theorem ended_without_source {f : Fault} (hs : s.openSource r.source = .error f)
    (hrun : (r.run s schedule).value = .ok result) :
    result = .of r.source (r.targets.map fun t => .failed t r.mode (faultWithout s f t)) ∧
      ∀ basePath format,
        (r.run s schedule).calls.filter (Call.commitsTo basePath format) = [] := by
  rcases run_inv hrun with ⟨results, hp, rfl⟩ | ⟨p, hp, -⟩
  · obtain ⟨-, g, hg, -, rfl⟩ := prepare_inv_error hp
    rw [hs] at hg
    cases hg
    refine ⟨by rw [withoutSource_map], fun basePath format => ?_⟩
    rw [run_of_unopened hp]
    exact filter_of_quiet (guarded_prepare r s).quiet
  · obtain ⟨source, becomes, changeCalls, snapshotCalls, h⟩ := prepare_inv hp
    have hsource := h.opened
    rw [hs] at hsource
    cases hsource

/-- A target that failed before the reads ends with this failure, and nothing is committed to it. -/
theorem ended_early (hs : s.openSource r.source = .ok source)
    (hrun : (r.run s schedule).value = .ok result) {i : Nat} (ht : r.targets[i]? = some t)
    {failed : TargetResult} (hslot : slotOf s r.mode t = .error failed) :
    result.targets[i]? = some failed ∧
      (r.run s schedule).calls.filter (Call.commitsTo t.basePath t.format) = [] := by
  obtain ⟨becomes, changeCalls, snapshotCalls, p, hp, h, rfl⟩ := prepared_of_run hs hrun
  have hbecomes : becomes (slotOf s r.mode t) = .error failed := by
    rw [hslot]
    exact h.changes.becomes_error failed
  have hended := h.result_at ht
  rw [hbecomes] at hended
  refine ⟨hended, ?_⟩
  rw [h.calls_at hp schedule (List.mem_of_getElem? ht) t.isAt_self, hbecomes]
  rfl

/-- **Every target that comes to the commits of a run ends by what it needed to read.** -/
theorem ends_by_read (hs : s.openSource r.source = .ok source)
    (hrun : (r.run s schedule).value = .ok result) {i : Nat} (ht : r.targets[i]? = some t)
    (ho : s.openTarget t = .ok target) (hposition : s.position t = .ok position) :
    ∃ ended, result.targets[i]? = some ended ∧
      EndsByRead r s source (r.run s schedule).calls t target position ended := by
  obtain ⟨becomes, changeCalls, snapshotCalls, p, hp, h, rfl⟩ := prepared_of_run hs hrun
  have hmem : t ∈ r.targets := List.mem_of_getElem? ht
  have hended := h.result_at ht
  by_cases hrebuilt : r.IsRebuilt source changeCalls position
  · have hslot := h.changes.becomes_full ho hposition hrebuilt
    rw [hslot] at hended
    refine ⟨_, hended, ?_, fun _ => h.endsRebuilt hp hmem hslot, fun hnot => ?_⟩
    · rw [h.isRebuilt_iff hp, iff_true_right hrebuilt]
      exact finish_mode _ _
    · exact absurd ((h.isRebuilt_iff hp).mpr hrebuilt) hnot
  · obtain ⟨own, hown, hslot⟩ := h.changes.becomes_incremental ho hposition hrebuilt
    rw [hslot] at hended
    obtain ⟨since, hcalls, hends⟩ := h.endsGoingOn hp hmem hslot
    refine ⟨_, hended, ?_, fun hyes => ?_, fun _ => ⟨own, since, hown, hcalls, hends⟩⟩
    · rw [h.isRebuilt_iff hp, iff_false_right hrebuilt]
      intro hmode
      have hkept : (resultOf s p.snapshot p.changes (.ok ⟨t, target, .incremental own⟩)).mode =
        .incremental := finish_mode _ _
      rw [hkept] at hmode
      cases hmode
    · exact absurd ((h.isRebuilt_iff hp).mp hyes) hrebuilt

/-- **A run that nothing fatal happens to comes to a result, and each target in it ends by the read
it needs.** The targets that could be opened and looked up are rebuilt or go on, all as they were
planned for unless the history is no longer kept. A fault of the source fails those that needed the
answer, each under its own label, and no other: what the others are given, and how they end, is said
without it. -/
theorem run_follows_reads (h : r.ReachesRead s source)
    (hchanges : ∀ c halt, source.changesSince c = .error halt → halt.isFatal = false)
    (hsnapshot : ∀ halt, source.snapshot = .error halt → halt.isFatal = false)
    (schedule : Schedule) :
    ∃ result, (r.run s schedule).value = .ok result ∧
      ∀ (i : Nat) (t : TableDescriptor) (target : Target) (position : Option Checkpoint),
        r.targets[i]? = some t → s.openTarget t = .ok target → s.position t = .ok position →
        ∃ ended, result.targets[i]? = some ended ∧
          EndsByRead r s source (r.run s schedule).calls t target position ended := by
  obtain ⟨p, hp⟩ := prepare_of_reachesRead h hchanges hsnapshot
  have hrun := congrArg Run.value (run_of_prepared hp schedule)
  exact ⟨_, hrun, fun i t target position ht ho hposition =>
    ends_by_read h.source hrun ht ho hposition⟩

/-- The changes cannot be read: the target that needed them fails, and the one that is rebuilt is
committed. -/
theorem run_follows_reads_mixed :
    let lost : Fault := ⟨.readException, "timeline is gone"⟩
    let source : Source :=
      { Source.ofHistory [.bare (.second 10), .bare (.second 20)] with
        changesSince := fun _ => .error (.fault lost) }
    let s := Services.withStore (fun _ => .ok source) (fun _ => .ok .prompt)
      (CheckpointStore.empty.put "/data/trips" "DELTA" (.second 10))
    let delta := TableDescriptor.plain "trips" "/data/trips" "DELTA"
    let iceberg := TableDescriptor.plain "trips" "/data/trips" "ICEBERG"
    let r : SyncRequest := ⟨.plain "trips" "/data/trips" "HUDI", [delta, iceberg], .incremental⟩
    ∃ result, (r.run s .inOrder).value = .ok result ∧
      result.targets[0]? = some (.failed delta .incremental lost) ∧
      result.targets[1]? = some (.of iceberg .full (.succeeded (.second 20))) := by
  intro lost source s delta iceberg r
  have hreaches : r.ReachesRead s source :=
    { sound := by decide +kernel
      targets := fun _ _ _ h => by cases h
      source := rfl
      positions := fun _ _ _ _ _ h => by cases h }
  have hchanges : ∀ c halt, source.changesSince c = .error halt → halt.isFatal = false := by
    intro c halt h
    cases h
    rfl
  have hsnapshot : ∀ halt, source.snapshot = .error halt → halt.isFatal = false := by
    intro halt h
    cases h
  obtain ⟨result, hrun, hends⟩ := run_follows_reads hreaches hchanges hsnapshot .inOrder
  refine ⟨result, hrun, ?_, ?_⟩
  · obtain ⟨ended, hended, hby⟩ := hends 0 delta .prompt (some (.second 10)) rfl rfl (by
      decide +kernel)
    have hkept : ¬ r.IsRebuilt source (r.run s .inOrder).calls (some (.second 10)) := by
      rintro (h | h | ⟨c, -, h⟩)
      · cases h
      · cases h
      · cases h
    obtain ⟨own, since, -, -, hgoes⟩ := hby.goesOn hkept
    obtain ⟨f, hf, -, rfl⟩ := hgoes.failed _ rfl
    cases hf
    exact hended
  · obtain ⟨ended, hended, hby⟩ := hends 1 iceberg .prompt none rfl rfl (by decide +kernel)
    obtain ⟨-, rfl⟩ := (hby.rebuilt (.inr (.inl rfl))).2.read _ rfl
    exact hended

end SyncRequest

end Lakehouse
