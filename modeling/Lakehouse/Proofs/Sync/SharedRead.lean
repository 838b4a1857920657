import Lakehouse.Proofs.Sync.Collaborators
import Lakehouse.Proofs.Sync.Settlement
import Lakehouse.Proofs.Sync.TurningPoint

/-!
# One read serves all targets

The targets that go on from their positions share one read of the changes, made at the oldest of
the positions. Each is then given what is behind its own position, which is found by halving. Of a
source whose history strictly increases this is what a read made for that target alone would have
answered.

* `TableRun.changesAfter_eq`: what is behind a position in an increasing list of changes.
* `TableRun.supply_shared`: what a target is given out of the changes since an older position.
* `SyncRequest.run_shares_one_read`: what each target commits, in any run.

About `read_changes` and `input_for`, which are modelled in `Sync.TableRun`.
-/

namespace Lakehouse

/-- Whether a call reads the changes of the source. -/
def Call.readsChanges : Call → Bool
  | .changesSince .. => true
  | _ => false

namespace TableRun

/-! ## Cutting the shared changes -/

/-- Up to a position and after it: the changes turn once. -/
theorem turnsOnce_upTo {cs : List Change} (hinc : History.Increasing cs) (c : Checkpoint) :
    TurningPoint.TurnsOnce (fun x => x.checkpoint.upTo c) cs :=
  hinc.imp fun hxy hy => Checkpoint.upTo_trans (Checkpoint.upTo_of_before hxy) hy

/-- **What is behind a position in an increasing list of changes is what comes after it.** -/
theorem changesAfter_eq {cs : List Change} (hinc : History.Increasing cs) (c : Checkpoint) :
    changesAfter c cs = History.after cs c := by
  unfold changesAfter History.after
  rw [TurningPoint.drop_find (turnsOnce_upTo hinc c)]
  refine List.filter_congr fun x _ => ?_
  rw [Checkpoint.upTo, Bool.not_not]

/-- What a target is given of the changes after its own position. -/
def givenChanges (own : Checkpoint) : List Change → Supply
  | [] => .upToDate own
  | cs => .changes cs

theorem givenChanges_eq_changes {own : Checkpoint} {cs given : List Change}
    (h : givenChanges own cs = .changes given) : cs = given := by
  cases cs with
  | nil => cases h
  | cons x cs => cases h; rfl

/-- **The changes since an older position give a target what those since its own would.** -/
theorem supply_shared {h : History} (hinc : h.Increasing) {since own : Checkpoint}
    (hold : since.upTo own = true) (snapshot : Reading Snapshot) :
    supply snapshot (some (.ok (h.after since))) (.incremental own) =
      givenChanges own (h.after own) := by
  simp only [supply]
  rw [changesAfter_eq (hinc.after since), History.after_after (Checkpoint.upTo_iff.mp hold)]
  cases h.after own with
  | nil => rfl
  | cons x cs => rfl

variable {r : SyncRequest} {s : Services} {source : Source} {h : History}
  {becomes : Slot Pending → Slot Pending} {changeCalls snapshotCalls : List Call} {p : Prepared}

/-- **A target that goes on is given the commits after its position**, if the source answers from
its history and the changes could be read. -/
theorem Readied.supply_eq (hr : Readied r s source becomes changeCalls snapshotCalls p)
    (hf : ∀ c cs, source.changesSince c = .ok (.changes cs) → cs = h.after c)
    (hinc : h.Increasing) {t : TableDescriptor} (ht : t ∈ r.targets) {q : Pending}
    (hslot : becomes (slotOf s r.mode t) = .ok q) {own : Checkpoint}
    (hplan : q.plan = .incremental own) {all : List Change}
    (hread : p.changes = some (.ok all)) :
    supply p.snapshot p.changes q.plan = givenChanges own (h.after own) := by
  have hchanges := hr.changes
  rw [hread] at hchanges
  obtain ⟨rfl, since, hold, hsince⟩ := hchanges.of_changes
  have hown : own ∈ positions (r.targets.map (slotOf s r.mode)) :=
    mem_positions.mpr ⟨q, List.mem_map.mpr ⟨t, ht, hslot⟩, hplan⟩
  rw [hplan, hread, hf since all hsince]
  exact supply_shared hinc ((oldest?_spec hold).2 own hown) p.snapshot

/-- The commits of a run read nothing. -/
theorem Readied.reads_of_run (hr : Readied r s source becomes changeCalls snapshotCalls p)
    (hp : (r.prepare s).value = .ok (.ok p)) (schedule : Schedule) :
    (r.run s schedule).calls.filter Call.isRead = changeCalls ++ snapshotCalls := by
  rw [SyncRequest.run_of_prepared hp, List.filter_append, hr.reads]
  have hcommits : ((schedule.work p.slots).flatMap fun w =>
      callsOf p.snapshot p.changes w.1).filter Call.isRead = [] := by
    rw [List.filter_eq_nil_iff]
    intro c hc
    obtain ⟨⟨slot, i⟩, -, hc⟩ := List.mem_flatMap.mp hc
    have hcommit := isCommit_of_mem_callsOf hc
    cases c with
    | replaceAll | applyChanges | record => exact Bool.false_ne_true
    | openTarget | openSource | lookUp | changesSince | currentSnapshot => cases hcommit
  rw [hcommits, List.append_nil]

/-- Reading the snapshot reads no changes. -/
theorem SnapshotRead.filter_readsChanges {table : TableDescriptor} {slots : List (Slot Pending)}
    {snapshot : Reading Snapshot} {calls : List Call}
    (h : SnapshotRead source table slots snapshot calls) :
    calls.filter Call.readsChanges = [] := by
  cases h with
  | notNeeded => rfl
  | read => rfl
  | failed => rfl

theorem filter_readsChanges (calls : List Call) :
    calls.filter Call.readsChanges = (calls.filter Call.isRead).filter Call.readsChanges := by
  rw [List.filter_filter]
  refine List.filter_congr fun c _ => ?_
  cases c with
  | changesSince | currentSnapshot => rfl
  | openTarget | openSource | lookUp | replaceAll | applyChanges | record => rfl

end TableRun

open TableRun

namespace SyncRequest

variable {r : SyncRequest} {s : Services} {schedule : Schedule} {result : TableResult}
  {source : Source} {h : History}

/-- Some target of a request goes on from a position, if that was asked for: it can be opened, and
this is its position. -/
def GoesOnFrom (r : SyncRequest) (s : Services) (c : Checkpoint) : Prop :=
  ∃ t ∈ r.targets, ∃ target, s.openTarget t = .ok target ∧ s.position t = .ok (some c)

theorem mem_positions_iff (hmode : r.mode = .incremental) {c : Checkpoint} :
    c ∈ positions (r.targets.map (slotOf s r.mode)) ↔ r.GoesOnFrom s c := by
  rw [mem_positions]
  constructor
  · rintro ⟨p, hp, hplan⟩
    obtain ⟨t, ht, hslot⟩ := List.mem_map.mp hp
    obtain ⟨-, ho, position, hposition, hof⟩ := slotOf_eq_ok hslot
    rw [hof] at hplan
    rw [(Plan.of_eq_incremental hplan).2] at hposition
    exact ⟨t, ht, p.target, ho, hposition⟩
  · rintro ⟨t, ht, target, ho, hposition⟩
    refine ⟨⟨t, target, .incremental c⟩, List.mem_map.mpr ⟨t, ht, ?_⟩, rfl⟩
    rw [slotOf_of_ok ho hposition, hmode]
    rfl

/-- What was read for the targets that go on, of a source that answers from its history. -/
structure SharedRead (r : SyncRequest) (s : Services) (h : History)
    (becomes : Slot Pending → Slot Pending) (changeCalls : List Call) (p : Prepared)
    (since : Checkpoint) : Prop where
  kept : becomes = id
  changes : p.changes = some (.ok (h.after since))
  calls : changeCalls = [.changesSince r.source since]
  goesOn : r.GoesOnFrom s since
  oldest : ∀ c, r.GoesOnFrom s c → since.upTo c = true

theorem sharedRead_of_readied {becomes : Slot Pending → Slot Pending}
    {changeCalls snapshotCalls : List Call} {p : Prepared} (hmode : r.mode = .incremental)
    (hchanges : ∀ c, source.changesSince c = .ok (.changes (h.after c)))
    (hr : Readied r s source becomes changeCalls snapshotCalls p) {own : Checkpoint}
    (hown : r.GoesOnFrom s own) : ∃ since, r.SharedRead s h becomes changeCalls p since := by
  have hmem := (mem_positions_iff hmode).mpr hown
  have hread := hr.changes
  generalize hgot : p.changes = changes at hread
  cases hread with
  | notNeeded hold =>
    rw [oldest?_eq_none.mp hold] at hmem
    cases hmem
  | @read since cs hold hcs =>
    obtain ⟨hsince, hle⟩ := oldest?_spec hold
    rw [hchanges since] at hcs
    cases hcs
    exact ⟨since, rfl, hgot, rfl, (mem_positions_iff hmode).mp hsince,
      fun c hc => hle c ((mem_positions_iff hmode).mpr hc)⟩
  | @unavailable since hold hun =>
    rw [hchanges since] at hun
    cases hun
  | @failed since f hold hf hfatal =>
    rw [hchanges since] at hf
    cases hf

/-- **Each target commits what its own read would have answered**, though all share one read. Of a
source whose history strictly increases, an incremental run reads the changes once, since the
oldest position that a target goes on from. A target whose own read would have answered some
changes is given these and no others; one whose own read would have answered none takes no commit
and stays where it is. -/
theorem run_shares_one_read (hmode : r.mode = .incremental)
    (hs : s.openSource r.source = .ok source) (hinc : h.Increasing)
    (hchanges : ∀ c, source.changesSince c = .ok (.changes (h.after c)))
    (hrun : (r.run s schedule).value = .ok result) {i : Nat} {t : TableDescriptor}
    {target : Target} {own : Checkpoint} (ht : r.targets[i]? = some t)
    (ho : s.openTarget t = .ok target) (hown : s.position t = .ok (some own)) :
    (∃ since, (r.run s schedule).calls.filter Call.readsChanges = [.changesSince r.source since] ∧
      r.GoesOnFrom s since ∧ ∀ c, r.GoesOnFrom s c → since.upTo c = true) ∧
    ∀ cs, source.changesSince own = .ok (.changes cs) →
      (cs ≠ [] → (r.run s schedule).calls.filter (Call.commitsTo t.basePath t.format) =
        .applyChanges t cs :: match target.applyChanges cs with
          | .ok c => [.record t c]
          | .error _ => []) ∧
      (cs = [] → (r.run s schedule).calls.filter (Call.commitsTo t.basePath t.format) = [] ∧
        result.targets[i]? = some (.of t .incremental (.succeeded own))) := by
  rcases run_inv hrun with ⟨results, hp, -⟩ | ⟨p, hp, rfl⟩
  · obtain ⟨-, f, hf, -, -⟩ := prepare_inv_error hp
    rw [hs] at hf
    cases hf
  obtain ⟨source', becomes, changeCalls, snapshotCalls, hr⟩ := prepare_inv hp
  have hsource := hr.opened
  rw [hs] at hsource
  cases hsource
  have hmem : t ∈ r.targets := List.mem_of_getElem? ht
  have hanswers : ∀ c cs, source.changesSince c = .ok (.changes cs) → cs = h.after c := by
    intro c cs hcs
    rw [hchanges c] at hcs
    cases hcs
    rfl
  obtain ⟨since, hshared⟩ := sharedRead_of_readied hmode hchanges hr ⟨t, hmem, target, ho, hown⟩
  have hbecomes := hshared.kept
  subst hbecomes
  have hslot : slotOf s r.mode t = .ok ⟨t, target, .incremental own⟩ := by
    rw [slotOf_of_ok ho hown, hmode]
    rfl
  -- what the target is given, cut from the shared changes
  have hgiven : supply p.snapshot p.changes (.incremental own) =
      givenChanges own (h.after own) :=
    hr.supply_eq hanswers hinc hmem hslot rfl hshared.changes
  have hcalls : (r.run s schedule).calls.filter (Call.commitsTo t.basePath t.format) =
      commitCalls ⟨t, target, .incremental own⟩ (givenChanges own (h.after own)) := by
    rw [hr.calls_at hp schedule hmem t.isAt_self, id_eq, hslot, ← hgiven]
    rfl
  refine ⟨⟨since, ?_, hshared.goesOn, hshared.oldest⟩, fun cs hcs => ?_⟩
  · rw [filter_readsChanges, hr.reads_of_run hp, List.filter_append,
      hr.snapshot.filter_readsChanges, hshared.calls]
    rfl
  · rw [hchanges own] at hcs
    cases hcs
    refine ⟨fun hne => ?_, fun hnil => ⟨?_, ?_⟩⟩
    · obtain ⟨x, rest, hcons⟩ := List.exists_cons_of_ne_nil hne
      rw [hcalls, hcons]
      rfl
    · rw [hcalls, hnil]
      rfl
    · show (p.slots.map (resultOf s p.snapshot p.changes))[i]? = _
      rw [hr.slots, List.getElem?_map, List.getElem?_map, ht, Option.map_some, Option.map_some,
        id_eq, hslot]
      simp only [resultOf]
      rw [hgiven, hnil]
      rfl

/-- Three targets, one of them ahead of the source, share a read; the second takes one commit. -/
theorem run_shares_one_read_of_three :
    let h : History := [.bare (.second 10), .bare (.second 20), .bare (.second 30)]
    let table := TableDescriptor.plain "trips" "/data/trips"
    let store := ((CheckpointStore.empty.put "/data/trips" "DELTA" (.second 10)).put
      "/data/trips" "ICEBERG" (.second 20)).put "/data/trips" "PAIMON" (.second 40)
    let s := Services.withStore (fun _ => .ok (.ofHistory h)) (fun _ => .ok .prompt) store
    let r : SyncRequest :=
      ⟨table "HUDI", [table "DELTA", table "ICEBERG", table "PAIMON"], .incremental⟩
    ∃ result, (r.run s .inOrder).value = .ok result ∧
      (r.run s .inOrder).calls.filter (Call.commitsTo "/data/trips" "ICEBERG") =
        [.applyChanges (table "ICEBERG") [.bare (.second 30)],
          .record (table "ICEBERG") (.second 30)] ∧
      result.targets.map TargetResult.checkpoint? =
        [some (.second 30), some (.second 30), some (.second 40)] := by
  intro h table store s r
  have hinc : h.Increasing := by
    have hpair : h.Pairwise fun x y => x.checkpoint.before y.checkpoint = true := by
      decide +kernel
    exact hpair
  have hsource : s.openSource r.source = .ok (.ofHistory h) := rfl
  have hsecond : r.targets[1]? = some (table "ICEBERG") := rfl
  have hopen : s.openTarget (table "ICEBERG") = .ok .prompt := rfl
  have hown : s.position (table "ICEBERG") = .ok (some (.second 20)) := by decide +kernel
  have hrun : (r.run s .inOrder).value.toOption.map (fun result =>
      result.targets.map TargetResult.checkpoint?) =
        some [some (.second 30), some (.second 30), some (.second 40)] := by
    decide +kernel
  cases hv : (r.run s .inOrder).value with
  | error halt => rw [hv] at hrun; cases hrun
  | ok result =>
    rw [hv] at hrun
    refine ⟨result, rfl, ?_, Option.some.inj hrun⟩
    have hshared := run_shares_one_read rfl hsource hinc (fun _ => rfl) hv hsecond hopen hown
    exact (hshared.2 _ rfl).1 (by decide +kernel)

end SyncRequest

end Lakehouse
