import Lakehouse.Proofs.Sync.ExactlyOnce
import Lakehouse.Proofs.Sync.Isolation
import Lakehouse.Proofs.Sync.OwnRead

/-!
# Running again

A target that has succeeded stands where no commit of the source is after it, whichever way it got
there: it was rebuilt from the head, it was given all changes up to the head, or there were none. A
second run that goes on from there has nothing to do.

* `Source.Complete`: a source that keeps all of its history.
* `TableRun.Readied.nothing_after`: after the position of a target that succeeded there is no
  commit.
* `SyncRequest.run_up_to_date`: a run whose targets all stand there commits nothing.
* `SyncRequest.run_again_is_idle`: the second run.

About `ConversionController::sync`, which is modelled in `Sync.TableRun`.
-/

namespace Lakehouse

open TableRun

/-- A source that answers any request for changes with the commits after the position asked for, and
whose snapshot reflects the head. -/
structure Source.Complete (source : Source) (h : History) : Prop where
  changes : ∀ c, source.changesSince c = .ok (.changes (h.after c))
  snapshot : ∀ snapshot, source.snapshot = .ok snapshot → h.head? = some snapshot.checkpoint

theorem Source.Complete.follows {source : Source} {h : History} (hc : source.Complete h) :
    source.Follows h where
  changes c cs hcs := by
    rw [hc.changes c] at hcs
    cases hcs
    rfl
  snapshot := hc.snapshot

theorem Source.ofHistory_complete (h : History) : (Source.ofHistory h).Complete h :=
  ⟨fun _ => rfl, (Source.ofHistory_follows h).snapshot⟩

theorem TargetResult.isSuccess_iff {ended : TargetResult} :
    ended.isSuccess = true ↔ ∃ c, ended.outcome = .succeeded c := by
  unfold isSuccess checkpoint?
  cases ended.outcome with
  | succeeded c => exact iff_of_true rfl ⟨c, rfl⟩
  | failed f => exact iff_of_false Bool.false_ne_true nofun

namespace TableRun

variable {r : SyncRequest} {s : Services} {source : Source} {h : History}
  {becomes : Slot Pending → Slot Pending} {changeCalls snapshotCalls : List Call} {p : Prepared}
  {t : TableDescriptor} {q : Pending} {c : Checkpoint}

/-! ## Reading no snapshot -/

theorem ChangesRead.currentSnapshot_not_mem {table : TableDescriptor} {slots : List (Slot Pending)}
    {changes : Reading (List Change)} {calls : List Call}
    (hread : ChangesRead source table slots becomes changes calls) (other : TableDescriptor) :
    .currentSnapshot other ∉ calls := by
  cases hread with
  | notNeeded => exact List.not_mem_nil
  | read | unavailable | failed => exact fun hmem => nomatch List.mem_singleton.mp hmem

theorem SnapshotRead.calls_eq_nil {table : TableDescriptor} {slots : List (Slot Pending)}
    {snapshot : Reading Snapshot} {calls : List Call}
    (hread : SnapshotRead source table slots snapshot calls) (hfull : Plan.full ∉ plans slots) :
    calls = [] := by
  cases hread with
  | notNeeded => rfl
  | read hneeded => exact absurd hneeded hfull
  | failed hneeded => exact absurd hneeded hfull

/-! ## Where a target that succeeded stands -/

theorem recordedAt_eq_ok {committed : Except Fault Checkpoint}
    (hr : recordedAt s q committed = .ok c) : committed = .ok c := by
  obtain ⟨d, hd, hrest⟩ := bind_eq_ok.mp hr
  obtain ⟨_, _, hrest⟩ := bind_eq_ok.mp hrest
  cases hrest
  exact hd

theorem finish_succeeded {committed : Except Fault Checkpoint}
    (hf : (finish q committed).outcome = .succeeded c) : committed = .ok c := by
  cases committed with
  | ok d =>
    cases hf
    rfl
  | error f => cases hf

/-- A target that succeeded came to the commits. -/
theorem Readied.came_to_commits (hr : Readied r s source becomes changeCalls snapshotCalls p)
    (hc : (resultOf s p.snapshot p.changes (becomes (slotOf s r.mode t))).outcome =
      .succeeded c) :
    ∃ q, becomes (slotOf s r.mode t) = .ok q ∧ q.table = t ∧
      s.openTarget t = .ok q.target ∧
      reached s q (supply p.snapshot p.changes q.plan) = .ok c ∧
      resultOf s p.snapshot p.changes (becomes (slotOf s r.mode t)) =
        .of t q.plan.mode (.succeeded c) := by
  cases hslot : becomes (slotOf s r.mode t) with
  | error result =>
    obtain ⟨f, rfl⟩ := hr.failed hslot
    rw [hslot] at hc
    cases hc
  | ok q =>
    obtain ⟨htable, htarget, -⟩ := hr.pending hslot
    rw [hslot] at hc
    have hreached := finish_succeeded hc
    refine ⟨q, rfl, htable, htarget, hreached, ?_⟩
    simp only [resultOf]
    rw [hreached, ← htable]
    rfl

/-- A target that was up to date has no commit after its position. -/
theorem Readied.nothing_after_of_upToDate
    (hr : Readied r s source becomes changeCalls snapshotCalls p) (hs : source.Complete h)
    (hinc : h.Increasing) (ht : t ∈ r.targets) (hslot : becomes (slotOf s r.mode t) = .ok q)
    (hsupply : supply p.snapshot p.changes q.plan = .upToDate c) : h.after c = [] := by
  have hplan := supply_eq_upToDate hsupply
  have hq : .ok q ∈ p.slots := by
    rw [hr.slots]
    exact List.mem_map.mpr ⟨t, ht, hslot⟩
  obtain ⟨since, -, ⟨cs, hread, -⟩ | ⟨f, -, hf⟩⟩ := hr.changes_read hq hplan
  · rw [hr.supply_eq hs.follows.changes hinc ht hslot hplan hread] at hsupply
    cases hafter : h.after c with
    | nil => rfl
    | cons x rest =>
      rw [hafter] at hsupply
      cases hsupply
  · rw [hs.changes since] at hf
    cases hf

/-- **After the position of a target that succeeded there is no commit**, whichever way it got
there. -/
theorem Readied.nothing_after (hr : Readied r s source becomes changeCalls snapshotCalls p)
    (hs : source.Complete h) (hinc : h.Increasing) (ht : t ∈ r.targets)
    (hslot : becomes (slotOf s r.mode t) = .ok q) (hhonest : q.target.Honest)
    (hreached : reached s q (supply p.snapshot p.changes q.plan) = .ok c) : h.after c = [] := by
  cases hsupply : supply p.snapshot p.changes q.plan with
  | snapshot snapshot =>
    rw [hsupply] at hreached
    obtain rfl := hhonest.replaceAll _ _ (recordedAt_eq_ok hreached)
    exact History.after_head hinc (hr.head_of_snapshot hs.follows hsupply)
  | changes cs =>
    rw [hsupply] at hreached
    have hlast := hhonest.applyChanges _ _ (recordedAt_eq_ok hreached)
    obtain ⟨own, -, rfl⟩ := hr.after_of_changes hs.follows hinc ht hslot hsupply
    exact History.after_head hinc (History.head_of_head_after hinc hlast)
  | upToDate d =>
    rw [hsupply] at hreached
    cases hreached
    exact hr.nothing_after_of_upToDate hs hinc ht hslot hsupply
  | unread f =>
    rw [hsupply] at hreached
    cases hreached

end TableRun

namespace SyncRequest

variable {r : SyncRequest} {s : Services} {source : Source} {h : History} {schedule : Schedule}
  {result : TableResult} {store : CheckpointStore}

/-! ## A run with nothing to do -/

/-- Every target can be opened and stands at a position after which there is no commit. -/
def UpToDate (r : SyncRequest) (s : Services) (h : History) : Prop :=
  ∀ t ∈ r.targets, ∃ target c, s.openTarget t = .ok target ∧ s.position t = .ok (some c) ∧
    h.after c = []

/-- No target that is up to date is rebuilt. -/
theorem UpToDate.full_not_mem (hup : r.UpToDate s h) (hmode : r.mode = .incremental) :
    Plan.full ∉ plans (r.targets.map (slotOf s r.mode)) := by
  intro hmem
  obtain ⟨q, hq, hfull⟩ := mem_plans.mp hmem
  obtain ⟨t, ht, hslot⟩ := List.mem_map.mp hq
  obtain ⟨target, c, ho, hposition, -⟩ := hup t ht
  rw [slotOf_of_ok ho hposition, hmode] at hslot
  cases hslot
  cases hfull

/-- The changes that are read for such targets leave their plans alone. -/
theorem becomes_eq_id {slots : List (Slot Pending)} {becomes : Slot Pending → Slot Pending}
    {changes : Reading (List Change)} {calls : List Call} {table : TableDescriptor}
    (hs : source.Complete h) (hread : ChangesRead source table slots becomes changes calls) :
    becomes = id := by
  cases hread with
  | notNeeded | read | failed => rfl
  | unavailable _ hun =>
    rw [hs.changes] at hun
    cases hun

/-- A run whose targets are up to date comes to its commits: it need not read the snapshot. -/
theorem prepare_up_to_date (hsound : r.problem? = none) (hmode : r.mode = .incremental)
    (ho : s.openSource r.source = .ok source) (hs : source.Complete h) (hup : r.UpToDate s h) :
    ∃ p, (r.prepare s).value = .ok (.ok p) := by
  have hreaches : r.ReachesRead s source := by
    refine ⟨hsound, fun t ht f hf => ?_, ho, fun t ht _ _ f hf => ?_⟩
    · obtain ⟨target, c, hopen, -⟩ := hup t ht
      rw [hopen] at hf
      cases hf
    · obtain ⟨target, c, -, hposition, -⟩ := hup t ht
      rw [hposition] at hf
      cases hf
  have hplan : (r.plan s).value = .ok (.ok ⟨source, r.targets.map (slotOf s r.mode)⟩) :=
    plan_eq_ok_iff.mpr ⟨hreaches, rfl⟩
  have hgoes : ∃ read, (readChanges source r.source (r.targets.map (slotOf s r.mode))).value =
      .ok read := by
    refine readChanges_value_iff.mpr fun since _ halt hhalt => ?_
    rw [hs.changes since] at hhalt
    cases hhalt
  obtain ⟨⟨slots, changes⟩, hread⟩ := hgoes
  obtain ⟨becomes, hslots, hchanges⟩ := readChanges_inv hread
  have hsame : slots = r.targets.map (slotOf s r.mode) := by
    rw [becomes_eq_id hs hchanges, List.map_id] at hslots
    exact hslots
  have hsnapshot : (readSnapshot source r.source slots).value = .ok none := by
    unfold readSnapshot
    rw [hsame, if_neg (hup.full_not_mem hmode)]
    rfl
  refine ⟨⟨slots, changes, none⟩, ?_⟩
  rw [prepare_eq_plan, Run.bind_of_ok hplan]
  simp only [read]
  rw [Run.bind_of_ok hread, Run.bind_of_ok hsnapshot]
  rfl

/-- What a target that is up to date takes in a run, and how it ends. -/
theorem settled_up_to_date {becomes : Slot Pending → Slot Pending}
    {changeCalls snapshotCalls : List Call} {p : Prepared}
    (hr : Readied r s source becomes changeCalls snapshotCalls p) (hmode : r.mode = .incremental)
    (hs : source.Complete h) (hinc : h.Increasing) (hup : r.UpToDate s h) {t : TableDescriptor}
    (ht : t ∈ r.targets) :
    callsOf p.snapshot p.changes (becomes (slotOf s r.mode t)) = [] ∧
      ∀ c, s.position t = .ok (some c) →
        resultOf s p.snapshot p.changes (becomes (slotOf s r.mode t)) =
          .of t .incremental (.succeeded c) := by
  obtain ⟨target, c, ho, hposition, hnone⟩ := hup t ht
  have hslot : becomes (slotOf s r.mode t) = .ok ⟨t, target, .incremental c⟩ := by
    rw [becomes_eq_id hs hr.changes, id_eq, slotOf_of_ok ho hposition, hmode]
    rfl
  have hq : .ok ⟨t, target, .incremental c⟩ ∈ p.slots := by
    rw [hr.slots]
    exact List.mem_map.mpr ⟨t, ht, hslot⟩
  have hsupply : supply p.snapshot p.changes (.incremental c) = .upToDate c := by
    obtain ⟨since, -, ⟨cs, hread, -⟩ | ⟨f, -, hf⟩⟩ := hr.changes_read hq rfl
    · have hgiven := hr.supply_eq hs.follows.changes hinc ht hslot rfl hread
      rw [hnone] at hgiven
      exact hgiven
    · rw [hs.changes since] at hf
      cases hf
  rw [hslot]
  simp only [callsOf, resultOf]
  rw [hsupply]
  refine ⟨rfl, fun d hd => ?_⟩
  rw [hposition] at hd
  cases hd
  rfl

/-- **A run whose targets are up to date commits nothing** and does not read the snapshot. It finds
every target where it stands. -/
theorem run_up_to_date (hsound : r.problem? = none) (hmode : r.mode = .incremental)
    (ho : s.openSource r.source = .ok source) (hs : source.Complete h) (hinc : h.Increasing)
    (hup : r.UpToDate s h) (schedule : Schedule) :
    (∃ results, (r.run s schedule).value = .ok (.of r.source results) ∧
      results.length = r.targets.length ∧
      ∀ (i : Nat) (t : TableDescriptor) (c : Checkpoint), r.targets[i]? = some t →
        s.position t = .ok (some c) → results[i]? = some (.of t .incremental (.succeeded c))) ∧
    ∀ call ∈ (r.run s schedule).calls, call.isCommit = false ∧
      ∀ table, call ≠ .currentSnapshot table := by
  obtain ⟨p, hp⟩ := prepare_up_to_date hsound hmode ho hs hup
  have hrun := run_of_prepared hp schedule
  obtain ⟨becomes, changeCalls, snapshotCalls, p', hp', hr, -⟩ :=
    prepared_of_run ho (congrArg Run.value hrun)
  rw [hp] at hp'
  cases hp'
  have hquiet : ((schedule.work p.slots).flatMap fun w => callsOf p.snapshot p.changes w.1) =
      [] := by
    rw [List.flatMap_eq_nil_iff]
    rintro ⟨slot, i⟩ hw
    have hget := schedule.mem_work.mp hw
    rw [hr.slots] at hget
    obtain ⟨t, ht, rfl⟩ := List.mem_map.mp (List.mem_of_getElem? hget)
    exact (settled_up_to_date hr hmode hs hinc hup ht).1
  have hcalls : (r.run s schedule).calls = (r.prepare s).calls := by
    rw [hrun, hquiet, List.append_nil]
  constructor
  · refine ⟨p.slots.map (resultOf s p.snapshot p.changes), congrArg Run.value hrun, ?_,
      fun i t c ht hc => ?_⟩
    · rw [hr.slots, List.length_map, List.length_map]
    · rw [hr.result_at ht]
      exact congrArg some
        ((settled_up_to_date hr hmode hs hinc hup (List.mem_of_getElem? ht)).2 c hc)
  · intro call hcall
    rw [hcalls] at hcall
    refine ⟨(guarded_prepare r s).quiet call hcall, ?_⟩
    rintro table rfl
    have hfull : Plan.full ∉ plans p.slots := by
      rw [hr.slots, becomes_eq_id hs hr.changes]
      exact hup.full_not_mem hmode
    rw [← mem_reads rfl, hr.reads, hr.snapshot.calls_eq_nil hfull, List.append_nil] at hcall
    exact hr.changes.currentSnapshot_not_mem table hcall

/-! ## The second run -/

/-- What is known of each target of a run in which all succeeded: it was opened, and it stands at
the position of its result, after which there is no commit. -/
theorem ended_at_position (hl : s.LooksUp store) (ho : s.openSource r.source = .ok source)
    (hs : source.Complete h) (hinc : h.Increasing)
    (hhonest : ∀ t ∈ r.targets, ∀ target, s.openTarget t = .ok target → target.Honest)
    (hrun : (r.run s schedule).value = .ok result)
    (hall : ∀ ended ∈ result.targets, ended.isSuccess = true) {i : Nat} {t : TableDescriptor}
    (ht : r.targets[i]? = some t) :
    ∃ target mode c, s.openTarget t = .ok target ∧
      result.targets[i]? = some (.of t mode (.succeeded c)) ∧
      (store.after s (r.run s schedule).calls).get? t.basePath t.format = some c ∧
      h.after c = [] := by
  obtain ⟨ended, hended, hposition⟩ := position_after_run hl hrun ht t.isAt_self
  obtain ⟨becomes, changeCalls, snapshotCalls, p, hp, hr, rfl⟩ := prepared_of_run ho hrun
  have hmem := List.mem_of_getElem? ht
  have hresult : some (resultOf s p.snapshot p.changes (becomes (slotOf s r.mode t))) =
      some ended := (hr.result_at ht).symm.trans hended
  obtain ⟨c, hc⟩ := TargetResult.isSuccess_iff.mp (hall ended (List.mem_of_getElem? hended))
  rw [← Option.some.inj hresult] at hc hended hposition
  obtain ⟨q, hslot, htable, htarget, hreached, hof⟩ := hr.came_to_commits hc
  refine ⟨q.target, q.plan.mode, c, htarget, hof ▸ hended, ?_, ?_⟩
  · rw [hposition, hc]
    rfl
  · exact hr.nothing_after hs hinc hmem hslot (hhonest t hmem q.target htarget) hreached

/-- A run with a source has a result for each target, in the order of the request. -/
theorem shape_of_run (ho : s.openSource r.source = .ok source)
    (hrun : (r.run s schedule).value = .ok result) :
    result = .of r.source result.targets ∧ result.targets.length = r.targets.length := by
  obtain ⟨becomes, changeCalls, snapshotCalls, p, -, hr, rfl⟩ := prepared_of_run ho hrun
  refine ⟨rfl, ?_⟩
  show (p.slots.map (resultOf s p.snapshot p.changes)).length = r.targets.length
  rw [hr.slots, List.length_map, List.length_map]

/-- **Running again does nothing.** The source keeps all of its history, which strictly increases,
and the store never fails. After a run in which every target succeeded, in whatever mode and from
whatever positions, the same targets are run again in incremental mode. If they can be opened again,
this second run makes no commit, records nothing and does not read the snapshot; the store stays as
the first run left it; and every target has succeeded with the position of the first run. -/
theorem run_again_is_idle (r : SyncRequest) (h : History) (source : Source)
    (openSource : TableDescriptor → Except Fault Source)
    (openTarget openAgain : TableDescriptor → Except Fault Target) (store : CheckpointStore)
    (schedule schedule' : Schedule) (result : TableResult)
    (ho : openSource r.source = .ok source) (hs : source.Complete h) (hinc : h.Increasing)
    (hhonest : ∀ t ∈ r.targets, ∀ target, openTarget t = .ok target → target.Honest)
    (hagain : ∀ t ∈ r.targets, ∀ target, openTarget t = .ok target →
      ∃ other, openAgain t = .ok other)
    (hrun : (r.run (.withStore openSource openTarget store) schedule).value = .ok result)
    (hall : ∀ ended ∈ result.targets, ended.isSuccess = true) :
    let s := Services.withStore openSource openTarget store
    let kept := store.after s (r.run s schedule).calls
    let s' := Services.withStore openSource openAgain kept
    let second := { r with mode := .incremental }.run s' schedule'
    second.value = .ok { result with
      targets := result.targets.map fun ended => { ended with mode := .incremental } } ∧
    (∀ call ∈ second.calls, call.isCommit = false ∧ ∀ table, call ≠ .currentSnapshot table) ∧
    kept.after s' second.calls = kept := by
  intro s kept s' second
  have hended : ∀ {i : Nat} {t : TableDescriptor}, r.targets[i]? = some t →
      ∃ target mode c, s.openTarget t = .ok target ∧
        result.targets[i]? = some (.of t mode (.succeeded c)) ∧
        kept.get? t.basePath t.format = some c ∧ h.after c = [] := fun ht =>
    ended_at_position (Services.withStore_looksUp _ _ store) ho hs hinc hhonest hrun hall ht
  have hup : UpToDate { r with mode := .incremental } s' h := by
    intro t ht
    obtain ⟨i, hi⟩ := List.mem_iff_getElem?.mp ht
    obtain ⟨target, mode, c, htarget, -, hposition, hnone⟩ := hended hi
    obtain ⟨other, hother⟩ := hagain t ht target htarget
    exact ⟨other, c, hother, congrArg Except.ok hposition, hnone⟩
  have hsound : r.problem? = none := problem?_of_run hrun
  obtain ⟨⟨results, hvalue, hlength, hresults⟩, hquiet⟩ :=
    run_up_to_date (r := { r with mode := .incremental }) hsound rfl ho hs hinc hup schedule'
  refine ⟨?_, hquiet, CheckpointStore.after_of_quiet kept fun call hcall => (hquiet call hcall).1⟩
  obtain ⟨hof, hlength'⟩ := shape_of_run (s := s) ho hrun
  have hsame : results =
      result.targets.map fun ended => { ended with mode := .incremental } := by
    refine List.ext_getElem? fun i => ?_
    rw [List.getElem?_map]
    cases ht : r.targets[i]? with
    | none =>
      have hle : r.targets.length ≤ i := List.getElem?_eq_none_iff.mp ht
      rw [List.getElem?_eq_none (Nat.le_trans (Nat.le_of_eq hlength) hle),
        List.getElem?_eq_none (Nat.le_trans (Nat.le_of_eq hlength') hle)]
      rfl
    | some t =>
      obtain ⟨target, mode, c, -, hfirst, hposition, -⟩ := hended ht
      rw [hresults i t c ht (congrArg Except.ok hposition), hfirst]
      rfl
  rw [hvalue, hsame, hof]
  rfl

/-- Three targets that get there in three ways: one is rebuilt, one is given two commits, and one
was ahead of the source from the start. -/
theorem run_again_is_idle_of_three :
    let h : History := [.bare (.second 10), .bare (.second 20), .bare (.second 30)]
    let table := TableDescriptor.plain "trips" "/data/trips"
    let store := (CheckpointStore.empty.put "/data/trips" "ICEBERG" (.second 10)).put
      "/data/trips" "PAIMON" (.second 40)
    let services := Services.withStore (fun _ => .ok (.ofHistory h)) (fun _ => .ok .prompt)
    let r : SyncRequest :=
      ⟨table "HUDI", [table "DELTA", table "ICEBERG", table "PAIMON"], .incremental⟩
    let first := r.run (services store) .inOrder
    let kept := store.after (services store) first.calls
    let second := r.run (services kept) .inOrder
    ∃ result, first.value = .ok result ∧
      result.targets.map (fun ended => (ended.mode, ended.checkpoint?)) =
        [(.full, some (.second 30)), (.incremental, some (.second 30)),
          (.incremental, some (.second 40))] ∧
      second.value = .ok { result with
        targets := result.targets.map fun ended => { ended with mode := .incremental } } ∧
      (∀ call ∈ second.calls, call.isCommit = false ∧ ∀ table, call ≠ .currentSnapshot table) ∧
      kept.after (services kept) second.calls = kept := by
  intro h table store services r first kept second
  have hinc : h.Increasing := by
    have hpair : h.Pairwise fun x y => x.checkpoint.before y.checkpoint = true := by
      decide +kernel
    exact hpair
  have hhonest : ∀ t ∈ r.targets, ∀ target,
      Except.ok .prompt = (.ok target : Except Fault Target) → target.Honest := by
    intro t _ target ho
    cases ho
    exact Target.prompt_honest
  have hended : first.value.toOption.map (fun result =>
      result.targets.map fun ended => (ended.mode, ended.checkpoint?)) =
        some [(.full, some (.second 30)), (.incremental, some (.second 30)),
          (.incremental, some (.second 40))] := by
    decide +kernel
  have hall : first.value.toOption.all (fun result => result.targets.all TargetResult.isSuccess) =
      true := by
    decide +kernel
  cases hrun : first.value with
  | error halt =>
    rw [hrun] at hended
    cases hended
  | ok result =>
    rw [hrun] at hended hall
    exact ⟨result, rfl, Option.some.inj hended,
      run_again_is_idle r h (.ofHistory h) (fun _ => .ok (.ofHistory h)) (fun _ => .ok .prompt)
        (fun _ => .ok .prompt) store .inOrder .inOrder result rfl (Source.ofHistory_complete h)
        hinc hhonest (fun _ _ target ho => ⟨target, ho⟩) hrun (List.all_eq_true.mp hall)⟩

end SyncRequest

end Lakehouse
