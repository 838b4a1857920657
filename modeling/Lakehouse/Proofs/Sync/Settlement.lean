import Lakehouse.Proofs.Sync.Reading
import Lakehouse.Proofs.Sync.Schedule

/-!
# What the commits of a run come to

Once a run is prepared nothing stops it. Each target is settled on its own: what it commits, which
calls that takes and how it ends depend on its plan, on what was read, and on the answers about this
target. A run therefore falls into one part for each target.

* `TableRun.reached`, `TableRun.commitCalls`: how a commit ends, and the calls it makes.
* `SyncRequest.run_of_prepared`: the result and the calls of a run that was prepared.
* `Call.commitsTo`: the calls that touch the target of a base path and a format.
* `TableRun.Readied.calls_at`: the calls of a run that touch a target are those of its own part.
* `SyncRequest.run_inv`, `SyncRequest.run_eq_or_prepared`: a run was prepared, or it ended before
  its commits.
-/

namespace Lakehouse

namespace TableRun

variable {s : Services} {snapshot : Reading Snapshot} {changes : Reading (List Change)}

/-! ## What a target is given -/

/-- Only a target that is rebuilt is given a snapshot, and it is given the one that was read. -/
theorem supply_eq_snapshot {plan : Plan} {given : Snapshot}
    (h : supply snapshot changes plan = .snapshot given) :
    plan = .full ∧ snapshot = some (.ok given) := by
  cases plan with
  | full =>
    refine ⟨rfl, ?_⟩
    simp only [supply] at h
    split at h
    · cases h; rfl
    · cases h
    · cases h
  | incremental own =>
    simp only [supply] at h
    split at h
    · split at h <;> cases h
    · cases h
    · cases h

/-- Only a target that goes on is given changes: those that were read, from its position on. -/
theorem supply_eq_changes {plan : Plan} {cs : List Change}
    (h : supply snapshot changes plan = .changes cs) :
    ∃ own all, plan = .incremental own ∧ changes = some (.ok all) ∧ cs = changesAfter own all := by
  cases plan with
  | full =>
    simp only [supply] at h
    split at h <;> cases h
  | incremental own =>
    simp only [supply] at h
    split at h
    · rename_i all
      split at h
      · cases h
      · cases h
        exact ⟨own, all, rfl, rfl, rfl⟩
    · cases h
    · cases h

/-- Only a target that goes on from a position can be up to date, and it is up to date there. -/
theorem supply_eq_upToDate {plan : Plan} {c : Checkpoint}
    (h : supply snapshot changes plan = .upToDate c) :
    plan = .incremental c := by
  cases plan with
  | full =>
    simp only [supply] at h
    split at h <;> cases h
  | incremental own =>
    simp only [supply] at h
    split at h
    · split at h
      · cases h; rfl
      · cases h
    · cases h
    · cases h

/-! ## One target -/

/-- How a commit ends once the target has answered it: the position it reached is recorded. -/
def recordedAt (s : Services) (p : Pending) (committed : Except Fault Checkpoint) :
    Except Fault Checkpoint := do
  let c ← committed
  s.recorded p.table c
  return c

/-- How a target ends. -/
def reached (s : Services) (p : Pending) : Supply → Except Fault Checkpoint
  | .snapshot snapshot => recordedAt s p (p.target.replaceAll snapshot)
  | .changes cs => recordedAt s p (p.target.applyChanges cs)
  | .upToDate c => .ok c
  | .unread f => .error f

/-- The call that records what a commit has reached, if it has reached anything. -/
def recordCalls (p : Pending) : Except Fault Checkpoint → List Call
  | .ok c => [.record p.table c]
  | .error _ => []

/-- The calls that a target takes. -/
def commitCalls (p : Pending) : Supply → List Call
  | .snapshot snapshot =>
    .replaceAll p.table snapshot :: recordCalls p (p.target.replaceAll snapshot)
  | .changes cs => .applyChanges p.table cs :: recordCalls p (p.target.applyChanges cs)
  | .upToDate _ | .unread _ => []

theorem mem_recordCalls {p : Pending} {committed : Except Fault Checkpoint} {call : Call}
    (h : call ∈ recordCalls p committed) : ∃ c, committed = .ok c ∧ call = .record p.table c := by
  cases committed with
  | ok c => exact ⟨c, rfl, List.mem_singleton.mp h⟩
  | error f => cases h

theorem recordPosition_eq (s : Services) (p : Pending) (committed : Except Fault Checkpoint) :
    recordPosition s p committed =
      ⟨recordCalls p committed, .ok (finish p (recordedAt s p committed))⟩ := by
  cases committed with
  | error f => rfl
  | ok c =>
    have htell : (Run.tell (.record p.table c) (s.recorded p.table c)).value =
        .ok (s.recorded p.table c) := rfl
    simp only [recordPosition]
    rw [Run.bind_of_ok htell]
    cases hr : s.recorded p.table c with
    | ok u =>
      have hat : recordedAt s p (.ok c) = .ok c := by
        show (s.recorded p.table c >>= fun _ => Except.ok c) = _
        rw [hr]
        rfl
      rw [hat]
      rfl
    | error f =>
      have hat : recordedAt s p (.ok c) = .error f := by
        show (s.recorded p.table c >>= fun _ => Except.ok c) = _
        rw [hr]
        rfl
      rw [hat]
      rfl

/-- A commit is not stopped; its calls and its result are known. -/
theorem commit_eq (s : Services) (p : Pending) (supply : Supply) :
    commit s p supply = ⟨commitCalls p supply, .ok (finish p (reached s p supply))⟩ := by
  cases supply with
  | snapshot snapshot =>
    simp only [commit]
    rw [Run.bind_of_ok rfl, recordPosition_eq]
    rfl
  | changes cs =>
    simp only [commit]
    rw [Run.bind_of_ok rfl, recordPosition_eq]
    rfl
  | upToDate c => rfl
  | unread f => rfl

/-- The result of a target. -/
def resultOf (s : Services) (snapshot : Reading Snapshot) (changes : Reading (List Change)) :
    Slot Pending → TargetResult
  | .error result => result
  | .ok p => finish p (reached s p (supply snapshot changes p.plan))

/-- The calls of a target. -/
def callsOf (snapshot : Reading Snapshot) (changes : Reading (List Change)) :
    Slot Pending → List Call
  | .error _ => []
  | .ok p => commitCalls p (supply snapshot changes p.plan)

theorem settle_eq (slot : Slot Pending) :
    settle s snapshot changes slot =
      ⟨callsOf snapshot changes slot, .ok (resultOf s snapshot changes slot)⟩ := by
  cases slot with
  | error result => rfl
  | ok p => exact commit_eq s p (supply snapshot changes p.plan)

/-- **Nothing stops the commits.** Their calls are in the order of the schedule, and their results
in that of the targets. -/
theorem settleAll_eq (schedule : Schedule) (slots : List (Slot Pending)) :
    settleAll s schedule snapshot changes slots =
      ⟨(schedule.work slots).flatMap fun w => callsOf snapshot changes w.1,
        .ok (slots.map (resultOf s snapshot changes))⟩ := by
  have hstep : ∀ w : Slot Pending × Nat,
      (do return (w.2, ← settle s snapshot changes w.1) : Run (Nat × TargetResult)) =
        ⟨callsOf snapshot changes w.1, .ok (w.2, resultOf s snapshot changes w.1)⟩ := by
    intro w
    rw [settle_eq, Run.bind_of_ok rfl, Run.pure_calls, Run.pure_value, List.append_nil]
  unfold settleAll
  rw [Run.each_of_ok (g := fun w => (w.2, resultOf s snapshot changes w.1)) (fun w => by
    show (do return (w.2, ← settle s snapshot changes w.1) : Run (Nat × TargetResult)).value = _
    rw [hstep w])]
  rw [Run.bind_of_ok rfl, Run.pure_calls, Run.pure_value, List.append_nil, schedule.placed_work]
  refine congrArg (Run.mk · _) (congrArg (fun g => (schedule.work slots).flatMap g) ?_)
  funext w
  exact congrArg Run.calls (hstep w)

end TableRun

open TableRun

/-! ## The whole run -/

namespace SyncRequest

variable {r : SyncRequest} {s : Services}

theorem run_of_stopped {halt : Halt} (h : (r.prepare s).value = .error halt)
    (schedule : Schedule) : r.run s schedule = ⟨(r.prepare s).calls, .error halt⟩ := by
  rw [run_eq_prepare, Run.bind_of_error h]

theorem run_of_unopened {results : List TargetResult}
    (h : (r.prepare s).value = .ok (.error results)) (schedule : Schedule) :
    r.run s schedule = ⟨(r.prepare s).calls, .ok (.of r.source results)⟩ := by
  rw [run_eq_prepare, Run.bind_of_ok h]
  simp only [conclude]
  rw [Run.pure_calls, Run.pure_value, List.append_nil]

/-- **The calls and the result of a run that was prepared.** -/
theorem run_of_prepared {p : Prepared} (h : (r.prepare s).value = .ok (.ok p))
    (schedule : Schedule) :
    r.run s schedule =
      ⟨(r.prepare s).calls ++
          (schedule.work p.slots).flatMap fun w => callsOf p.snapshot p.changes w.1,
        .ok (.of r.source (p.slots.map (resultOf s p.snapshot p.changes)))⟩ := by
  rw [run_eq_prepare, Run.bind_of_ok h]
  simp only [conclude]
  rw [settleAll_eq, Run.bind_of_ok rfl, Run.pure_calls, Run.pure_value, List.append_nil]

/-- A run that does not come to its commits is its preparation, whatever the schedule. -/
theorem run_eq_or_prepared (r : SyncRequest) (s : Services) :
    (∃ ended, ∀ schedule, r.run s schedule = ⟨(r.prepare s).calls, ended⟩) ∨
      ∃ p, (r.prepare s).value = .ok (.ok p) := by
  cases hp : (r.prepare s).value with
  | error halt => exact Or.inl ⟨_, run_of_stopped hp⟩
  | ok x =>
    cases x with
    | error results => exact Or.inl ⟨_, run_of_unopened hp⟩
    | ok p => exact Or.inr ⟨p, rfl⟩

/-- A run that came to a result was prepared, or had no source. -/
theorem run_inv {schedule : Schedule} {result : TableResult}
    (h : (r.run s schedule).value = .ok result) :
    (∃ results, (r.prepare s).value = .ok (.error results) ∧ result = .of r.source results) ∨
      ∃ p, (r.prepare s).value = .ok (.ok p) ∧
        result = .of r.source (p.slots.map (resultOf s p.snapshot p.changes)) := by
  cases hp : (r.prepare s).value with
  | error halt =>
    rw [run_of_stopped hp] at h
    cases h
  | ok x =>
    cases x with
    | error results =>
      rw [run_of_unopened hp] at h
      cases h
      exact Or.inl ⟨results, rfl, rfl⟩
    | ok p =>
      rw [run_of_prepared hp] at h
      cases h
      exact Or.inr ⟨p, rfl, rfl⟩

end SyncRequest

/-! ## The part of one target -/

/-- Whether a table is the target of that base path and that format, in any case. -/
def TableDescriptor.isAt (t : TableDescriptor) (basePath format : String) : Bool :=
  t.basePath == basePath && Text.sameLetters t.format format

theorem TableDescriptor.isAt_iff {t : TableDescriptor} {basePath format : String} :
    t.isAt basePath format = true ↔
      t.basePath = basePath ∧ Text.upper t.format = Text.upper format := by
  unfold isAt
  rw [Bool.and_eq_true, beq_iff_eq, Text.sameLetters_iff]

theorem TableDescriptor.isAt_self (t : TableDescriptor) : t.isAt t.basePath t.format = true :=
  isAt_iff.mpr ⟨rfl, rfl⟩

/-- No two targets of a request without a problem are one target. -/
theorem SyncRequest.isAt_of_ne {r : SyncRequest} (h : r.problem? = none) {i j : Nat}
    {t u : TableDescriptor} (hi : r.targets[i]? = some t) (hj : r.targets[j]? = some u)
    (hne : i ≠ j) {basePath format : String} (hat : t.isAt basePath format = true) :
    u.isAt basePath format = false := by
  rw [Bool.eq_false_iff]
  intro huat
  refine formats_ne h hi hj hne ?_
  rw [(TableDescriptor.isAt_iff.mp hat).2, (TableDescriptor.isAt_iff.mp huat).2]

/-- A base path and a format are those of a target of a request, or of none. -/
theorem SyncRequest.isAt_or_elsewhere (r : SyncRequest) (basePath format : String) :
    (∃ (i : Nat) (t : TableDescriptor), r.targets[i]? = some t ∧ t.isAt basePath format = true) ∨
      ∀ t ∈ r.targets, t.isAt basePath format = false := by
  by_cases h : ∃ t ∈ r.targets, t.isAt basePath format = true
  · obtain ⟨t, ht, hat⟩ := h
    obtain ⟨i, hi⟩ := List.mem_iff_getElem?.mp ht
    exact Or.inl ⟨i, t, hi, hat⟩
  · refine Or.inr fun t ht => ?_
    rw [Bool.eq_false_iff]
    exact fun hat => h ⟨t, ht, hat⟩

/-- Whether a call changes the target of a base path and a format, or its position. -/
def Call.commitsTo (basePath format : String) : Call → Bool
  | .replaceAll t _ | .applyChanges t _ | .record t _ => t.isAt basePath format
  | _ => false

theorem Call.isCommit_of_commitsTo {c : Call} {basePath format : String}
    (h : c.commitsTo basePath format = true) : c.isCommit = true := by
  cases c with
  | replaceAll | applyChanges | record => rfl
  | openTarget | openSource | lookUp | changesSince | currentSnapshot => cases h

namespace TableRun

variable {r : SyncRequest} {s : Services} {source : Source}
  {becomes : Slot Pending → Slot Pending} {changeCalls snapshotCalls : List Call} {p : Prepared}
  {basePath format : String}

theorem commitsTo_of_mem_commitCalls {q : Pending} {supply : Supply} {c : Call}
    (hc : c ∈ commitCalls q supply) :
    c.commitsTo basePath format = q.table.isAt basePath format := by
  have hrecord : ∀ committed, c ∈ recordCalls q committed →
      c.commitsTo basePath format = q.table.isAt basePath format := by
    intro committed hmem
    obtain ⟨d, -, rfl⟩ := mem_recordCalls hmem
    rfl
  cases supply with
  | snapshot snapshot =>
    rcases List.mem_cons.mp hc with rfl | hc
    · rfl
    · exact hrecord _ hc
  | changes cs =>
    rcases List.mem_cons.mp hc with rfl | hc
    · rfl
    · exact hrecord _ hc
  | upToDate d => cases hc
  | unread f => cases hc

theorem isCommit_of_mem_callsOf {snapshot : Reading Snapshot} {changes : Reading (List Change)}
    {slot : Slot Pending} {c : Call} (hc : c ∈ callsOf snapshot changes slot) :
    c.isCommit = true := by
  cases slot with
  | error result => cases hc
  | ok q =>
    have hto : c.commitsTo q.table.basePath q.table.format = true := by
      rw [commitsTo_of_mem_commitCalls hc]
      exact q.table.isAt_self
    exact Call.isCommit_of_commitsTo hto

/-- A target's part of a run concerns that target. -/
theorem Readied.filter_callsOf (h : Readied r s source becomes changeCalls snapshotCalls p)
    (t : TableDescriptor) :
    (callsOf p.snapshot p.changes (becomes (slotOf s r.mode t))).filter
        (Call.commitsTo basePath format) =
      if t.isAt basePath format = true
      then callsOf p.snapshot p.changes (becomes (slotOf s r.mode t)) else [] := by
  cases hslot : becomes (slotOf s r.mode t) with
  | error result => split <;> rfl
  | ok q =>
    obtain ⟨htable, -⟩ := h.pending hslot
    simp only [callsOf]
    by_cases hat : t.isAt basePath format = true
    · rw [if_pos hat, List.filter_eq_self]
      intro c hc
      rw [commitsTo_of_mem_commitCalls hc, htable, hat]
    · rw [if_neg hat, List.filter_eq_nil_iff]
      intro c hc
      rw [commitsTo_of_mem_commitCalls hc, htable]
      exact hat

/-- Calls that commit nothing touch no target. -/
theorem filter_of_quiet {calls : List Call} (h : ∀ c ∈ calls, c.isCommit = false) :
    calls.filter (Call.commitsTo basePath format) = [] := by
  rw [List.filter_eq_nil_iff]
  intro c hc hto
  have hquiet := h c hc
  rw [Call.isCommit_of_commitsTo hto] at hquiet
  cases hquiet

/-- The calls of a run that touch one target are all made by its commits. -/
theorem filter_calls (hp : (r.prepare s).value = .ok (.ok p)) (schedule : Schedule) :
    (r.run s schedule).calls.filter (Call.commitsTo basePath format) =
      (schedule.work p.slots).flatMap fun w =>
        (callsOf p.snapshot p.changes w.1).filter (Call.commitsTo basePath format) := by
  have hquiet : (r.prepare s).calls.filter (Call.commitsTo basePath format) = [] :=
    filter_of_quiet (SyncRequest.guarded_prepare r s).quiet
  rw [SyncRequest.run_of_prepared hp, List.filter_append, hquiet, List.nil_append,
    List.filter_flatMap]

/-- **The calls of a run that touch a target are those of its own part**, in any order of the
commits. -/
theorem Readied.calls_at (h : Readied r s source becomes changeCalls snapshotCalls p)
    (hp : (r.prepare s).value = .ok (.ok p)) (schedule : Schedule) {t : TableDescriptor}
    (ht : t ∈ r.targets) (hat : t.isAt basePath format = true) :
    (r.run s schedule).calls.filter (Call.commitsTo basePath format) =
      callsOf p.snapshot p.changes (becomes (slotOf s r.mode t)) := by
  obtain ⟨i, hi⟩ := List.mem_iff_getElem?.mp ht
  have hget : p.slots[i]? = some (becomes (slotOf s r.mode t)) := by
    rw [h.slots, List.getElem?_map, hi, Option.map_some]
  rw [filter_calls hp, schedule.flatMap_work hget, h.filter_callsOf, if_pos hat]
  intro slot j hj hne
  rw [h.slots, List.getElem?_map] at hj
  obtain ⟨u, hu, rfl⟩ := Option.map_eq_some_iff.mp hj
  rw [h.filter_callsOf, SyncRequest.isAt_of_ne h.sound hi hu hne.symm hat, if_neg]
  exact Bool.false_ne_true

/-- A run touches no target but those of its request. -/
theorem Readied.calls_elsewhere (h : Readied r s source becomes changeCalls snapshotCalls p)
    (hp : (r.prepare s).value = .ok (.ok p)) (schedule : Schedule)
    (hnone : ∀ t ∈ r.targets, t.isAt basePath format = false) :
    (r.run s schedule).calls.filter (Call.commitsTo basePath format) = [] := by
  rw [filter_calls hp, List.flatMap_eq_nil_iff]
  rintro ⟨slot, i⟩ hw
  have hget := (schedule.mem_work).mp hw
  rw [h.slots] at hget
  obtain ⟨t, ht, rfl⟩ := List.mem_map.mp (List.mem_of_getElem? hget)
  rw [h.filter_callsOf, if_neg]
  rw [hnone t ht]
  exact Bool.false_ne_true

end TableRun

end Lakehouse
