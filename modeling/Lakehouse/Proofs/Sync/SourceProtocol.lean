import Lakehouse.Proofs.Sync.Cause

/-!
# What a run asks of its source

However a run goes, it asks its source for the changes at most once and then for the snapshot at
most once. Which of the two it asks for is decided by the answers before: the changes are asked for
if some target goes on from a position, and the snapshot if some target is rebuilt. So no target is
left without the read it needs, and every failure of a target was given as an answer.

* `SyncRequest.reads_eq`, `SyncRequest.reads_eq_nil`: the reads of a run, stopped or not.
* `SyncRequest.changesSince_oldest`, `SyncRequest.currentSnapshot_iff`: when a run that comes to its
  reads asks for the changes, and when for the snapshot.
* `SyncRequest.SourceProtocol`, `SyncRequest.run_follows_protocol`: what holds of every run.

About `sync_table` and `read_changes`, which are modelled in `Sync.TableRun`.
-/

namespace Lakehouse

open TableRun

namespace SyncRequest

variable {r : SyncRequest} {s : Services} {source : Source} {schedule : Schedule}
  {result : TableResult} {c : Checkpoint}

/-! ## The reads of a run -/

/-- The commits of a run read nothing. -/
theorem reads_of_prepare (r : SyncRequest) (s : Services) (schedule : Schedule) :
    (r.run s schedule).calls.filter Call.isRead = (r.prepare s).calls.filter Call.isRead := by
  rcases r.run_eq_or_prepared s with ⟨ended, h⟩ | ⟨p, hp⟩
  · rw [h]
  · obtain ⟨source, becomes, changeCalls, snapshotCalls, h⟩ := prepare_inv hp
    rw [h.reads_of_run hp, h.reads]

theorem plan_reads_nil (r : SyncRequest) (s : Services) :
    (r.plan s).calls.filter Call.isRead = [] := by
  rw [List.filter_eq_nil_iff]
  intro c hc hread
  rw [plan_reads_nothing r s c hc] at hread
  cases hread

theorem filter_readChanges (source : Source) (table : TableDescriptor)
    (slots : List (Slot Pending)) :
    (readChanges source table slots).calls.filter Call.isRead =
      (readChanges source table slots).calls := by
  rw [calls_readChanges]
  cases oldest? (positions slots) with
  | none => rfl
  | some since => rfl

theorem filter_readSnapshot (source : Source) (table : TableDescriptor)
    (slots : List (Slot Pending)) :
    (readSnapshot source table slots).calls.filter Call.isRead =
      (readSnapshot source table slots).calls := by
  rw [calls_readSnapshot]
  split
  · rfl
  · rfl

/-- **The reads of a run that comes to them**, stopped there or not. -/
theorem reads_eq (h : r.ReachesRead s source) (schedule : Schedule) :
    (r.run s schedule).calls.filter Call.isRead =
      (readChanges source r.source (r.targets.map (slotOf s r.mode))).calls ++
        match (readChanges source r.source (r.targets.map (slotOf s r.mode))).value with
        | .ok (slots, _) => (readSnapshot source r.source slots).calls
        | .error _ => [] := by
  have hplan : (r.plan s).value = .ok (.ok ⟨source, r.targets.map (slotOf s r.mode)⟩) :=
    plan_eq_ok_iff.mpr ⟨h, rfl⟩
  rw [reads_of_prepare, prepare_eq_plan, Run.bind_of_ok hplan, List.filter_append, plan_reads_nil,
    List.nil_append]
  simp only [read]
  cases hread : (readChanges source r.source (r.targets.map (slotOf s r.mode))).value with
  | error halt =>
    rw [Run.bind_of_error hread, filter_readChanges, List.append_nil]
  | ok read =>
    obtain ⟨slots, changes⟩ := read
    rw [Run.bind_of_ok hread, List.filter_append, filter_readChanges]
    cases hsnapshot : (readSnapshot source r.source slots).value with
    | error halt => rw [Run.bind_of_error hsnapshot, filter_readSnapshot]
    | ok snapshot =>
      rw [Run.bind_of_ok hsnapshot, Run.pure_calls, List.append_nil, filter_readSnapshot]

/-- A run that does not come to its reads asks nothing of its source. -/
theorem reads_eq_nil (h : ∀ source, ¬ r.ReachesRead s source) (schedule : Schedule) :
    (r.run s schedule).calls.filter Call.isRead = [] := by
  rw [reads_of_prepare, prepare_eq_plan]
  cases hplan : (r.plan s).value with
  | error halt => rw [Run.bind_of_error hplan, plan_reads_nil]
  | ok planned =>
    rw [Run.bind_of_ok hplan, List.filter_append, plan_reads_nil]
    cases planned with
    | error results => rfl
    | ok planned => exact absurd (plan_eq_ok_iff.mp hplan).1 (h planned.source)

/-! ## The changes -/

/-- A run that comes to its reads asks for the changes where it reads the changes. -/
theorem changesSince_mem_calls (h : r.ReachesRead s source) :
    .changesSince r.source c ∈ (r.run s schedule).calls ↔ .changesSince r.source c ∈
      (readChanges source r.source (r.targets.map (slotOf s r.mode))).calls := by
  have hsnapshot : ∀ slots, .changesSince r.source c ∉
      (readSnapshot source r.source slots).calls := by
    intro slots
    rw [calls_readSnapshot]
    split
    · exact fun hmem => nomatch List.mem_singleton.mp hmem
    · exact List.not_mem_nil
  rw [← mem_reads rfl, reads_eq h, List.mem_append, or_iff_left]
  split
  · exact hsnapshot _
  · exact List.not_mem_nil

/-- It asks for them since the oldest position. -/
theorem changesSince_mem_iff (h : r.ReachesRead s source) :
    .changesSince r.source c ∈ (r.run s schedule).calls ↔
      oldest? (positions (r.targets.map (slotOf s r.mode))) = some c := by
  rw [changesSince_mem_calls h, calls_readChanges]
  cases oldest? (positions (r.targets.map (slotOf s r.mode))) with
  | none => simp
  | some since => simp [eq_comm]

theorem mode_of_mem_positions (h : c ∈ positions (r.targets.map (slotOf s r.mode))) :
    r.mode = .incremental := by
  obtain ⟨p, hp, hplan⟩ := mem_positions.mp h
  obtain ⟨t, -, hslot⟩ := List.mem_map.mp hp
  obtain ⟨-, -, position, -, hof⟩ := slotOf_eq_ok hslot
  rw [hof] at hplan
  exact (Plan.of_eq_incremental hplan).1

/-- The position that the changes are asked for since is the oldest that a target goes on from. -/
theorem changesSince_oldest (h : r.ReachesRead s source)
    (hc : .changesSince r.source c ∈ (r.run s schedule).calls) :
    r.mode = .incremental ∧ r.GoesOnFrom s c ∧ ∀ d, r.GoesOnFrom s d → c.upTo d = true := by
  obtain ⟨hmem, hle⟩ := oldest?_spec ((changesSince_mem_iff h).mp hc)
  have hmode := mode_of_mem_positions hmem
  exact ⟨hmode, (mem_positions_iff hmode).mp hmem,
    fun d hd => hle d ((mem_positions_iff hmode).mpr hd)⟩

theorem changesSince_of_goesOn (h : r.ReachesRead s source) (hmode : r.mode = .incremental)
    (hc : r.GoesOnFrom s c) : ∃ since, .changesSince r.source since ∈ (r.run s schedule).calls := by
  have hmem := (mem_positions_iff hmode).mpr hc
  cases hold : oldest? (positions (r.targets.map (slotOf s r.mode))) with
  | none =>
    rw [oldest?_eq_none.mp hold] at hmem
    cases hmem
  | some since => exact ⟨since, (changesSince_mem_iff h).mpr hold⟩

/-! ## The snapshot -/

/-- In a run that comes to its reads the snapshot is asked for if the changes have not stopped it
and a target is then planned to be rebuilt. -/
theorem currentSnapshot_mem_iff (h : r.ReachesRead s source) :
    .currentSnapshot r.source ∈ (r.run s schedule).calls ↔
      ∃ read, (readChanges source r.source (r.targets.map (slotOf s r.mode))).value = .ok read ∧
        Plan.full ∈ plans read.1 := by
  have hchanges : .currentSnapshot r.source ∉
      (readChanges source r.source (r.targets.map (slotOf s r.mode))).calls := by
    rw [calls_readChanges]
    cases oldest? (positions (r.targets.map (slotOf s r.mode))) with
    | none => simp
    | some since => simp
  rw [← mem_reads rfl, reads_eq h, List.mem_append, or_iff_right hchanges]
  cases (readChanges source r.source (r.targets.map (slotOf s r.mode))).value with
  | error halt => exact iff_of_false List.not_mem_nil (by rintro ⟨read, hread, -⟩; cases hread)
  | ok read =>
    obtain ⟨slots, changes⟩ := read
    simp only [Except.ok.injEq, exists_eq_left']
    rw [calls_readSnapshot]
    by_cases hfull : Plan.full ∈ plans slots
    · simp [hfull]
    · simp [hfull]

/-- Some target is planned to be rebuilt after the changes were read exactly if it has to be. -/
theorem full_mem_plans_iff {becomes : Slot Pending → Slot Pending}
    {changes : Reading (List Change)} {changeCalls : List Call}
    (h : ChangesRead source r.source (r.targets.map (slotOf s r.mode)) becomes changes
      changeCalls) :
    Plan.full ∈ plans ((r.targets.map (slotOf s r.mode)).map becomes) ↔
      ∃ t ∈ r.targets, ∃ target position, s.openTarget t = .ok target ∧
        s.position t = .ok position ∧ r.IsRebuilt source changeCalls position := by
  rw [mem_plans, List.map_map]
  constructor
  · rintro ⟨q, hq, hplan⟩
    obtain ⟨t, ht, hbecomes⟩ := List.mem_map.mp hq
    rw [Function.comp_apply] at hbecomes
    cases hslot : slotOf s r.mode t with
    | error failed =>
      rw [hslot, h.becomes_error] at hbecomes
      cases hbecomes
    | ok q' =>
      obtain ⟨-, ho, position, hposition, -⟩ := slotOf_eq_ok hslot
      refine ⟨t, ht, q'.target, position, ho, hposition, ?_⟩
      by_contra hkept
      obtain ⟨own, -, hgoes⟩ := h.becomes_incremental ho hposition hkept
      rw [hgoes] at hbecomes
      cases hbecomes
      cases hplan
  · rintro ⟨t, ht, target, position, ho, hposition, hrebuilt⟩
    exact ⟨⟨t, target, .full⟩,
      List.mem_map.mpr ⟨t, ht, h.becomes_full ho hposition hrebuilt⟩, rfl⟩

/-- **The snapshot is asked for exactly if the changes did not stop the run and some target is
rebuilt.** -/
theorem currentSnapshot_iff (h : r.ReachesRead s source) :
    .currentSnapshot r.source ∈ (r.run s schedule).calls ↔
      (∀ c, .changesSince r.source c ∈ (r.run s schedule).calls →
        ∀ halt, source.changesSince c = .error halt → halt.isFatal = false) ∧
      ∃ t ∈ r.targets, ∃ target position, s.openTarget t = .ok target ∧
        s.position t = .ok position ∧
        r.IsRebuilt source (r.run s schedule).calls position := by
  have hstop : (∀ c, .changesSince r.source c ∈ (r.run s schedule).calls →
      ∀ halt, source.changesSince c = .error halt → halt.isFatal = false) ↔
      ∃ read, (readChanges source r.source (r.targets.map (slotOf s r.mode))).value =
        .ok read := by
    rw [readChanges_value_iff]
    exact forall_congr' fun d => imp_congr_left (changesSince_mem_iff h)
  have hrebuilt : ∀ position, r.IsRebuilt source (r.run s schedule).calls position ↔
      r.IsRebuilt source
        (readChanges source r.source (r.targets.map (slotOf s r.mode))).calls position := by
    intro position
    unfold IsRebuilt
    simp only [changesSince_mem_calls h]
  rw [currentSnapshot_mem_iff h, hstop]
  simp only [hrebuilt]
  constructor
  · rintro ⟨read, hread, hfull⟩
    obtain ⟨becomes, hslots, hchanges⟩ := readChanges_inv hread
    rw [hslots] at hfull
    exact ⟨⟨read, hread⟩, (full_mem_plans_iff hchanges).mp hfull⟩
  · rintro ⟨⟨read, hread⟩, hsome⟩
    obtain ⟨becomes, hslots, hchanges⟩ := readChanges_inv hread
    refine ⟨read, hread, ?_⟩
    rw [hslots]
    exact (full_mem_plans_iff hchanges).mpr hsome

/-! ## The protocol -/

/-- How a run deals with its source. -/
structure SourceProtocol (r : SyncRequest) (s : Services) (run : Run TableResult) : Prop where
  /-- The source is asked for the changes at most once, then for the snapshot at most once, and for
  nothing else. -/
  inOrder : ∃ (since : Option Checkpoint) (whole : Bool), run.calls.filter Call.isRead =
    (since.map (Call.changesSince r.source)).toList ++
      if whole = true then [.currentSnapshot r.source] else []
  /-- The changes are asked for exactly if the run comes to its reads and some target goes on. -/
  changes : (∃ since, .changesSince r.source since ∈ run.calls) ↔
    (∃ source, r.ReachesRead s source) ∧ r.mode = .incremental ∧ ∃ own, r.GoesOnFrom s own
  /-- They are asked for since the oldest position that a target goes on from. -/
  oldest : ∀ since, .changesSince r.source since ∈ run.calls →
    r.GoesOnFrom s since ∧ ∀ own, r.GoesOnFrom s own → since.upTo own = true
  /-- The snapshot is asked for exactly if the run comes to its reads, the changes do not stop it,
  and some target is then rebuilt. -/
  snapshot : .currentSnapshot r.source ∈ run.calls ↔ ∃ source, r.ReachesRead s source ∧
    (∀ since, .changesSince r.source since ∈ run.calls →
      ∀ halt, source.changesSince since = .error halt → halt.isFatal = false) ∧
    ∃ t ∈ r.targets, ∃ target position, s.openTarget t = .ok target ∧
      s.position t = .ok position ∧ r.IsRebuilt source run.calls position
  /-- No target lacks the read it needs: its failure is one that a call was answered with. -/
  causes : ∀ result, run.value = .ok result → ∀ (i : Nat) (t : TableDescriptor)
    (ended : TargetResult) (g : Fault), r.targets[i]? = some t → result.targets[i]? = some ended →
    ended.outcome = .failed g → HasCause s run.calls t g

theorem reads_in_order (r : SyncRequest) (s : Services) (schedule : Schedule) :
    ∃ (since : Option Checkpoint) (whole : Bool), (r.run s schedule).calls.filter Call.isRead =
      (since.map (Call.changesSince r.source)).toList ++
        if whole = true then [.currentSnapshot r.source] else [] := by
  by_cases h : ∃ source, r.ReachesRead s source
  · obtain ⟨source, h⟩ := h
    rw [reads_eq h, calls_readChanges]
    refine ⟨oldest? (positions (r.targets.map (slotOf s r.mode))), ?_⟩
    split
    · rename_i slots changes _
      refine ⟨decide (Plan.full ∈ plans slots), ?_⟩
      simp only [calls_readSnapshot, decide_eq_true_eq]
    · exact ⟨false, rfl⟩
  · exact ⟨none, false, reads_eq_nil (fun source hsource => h ⟨source, hsource⟩) schedule⟩

/-- A run that asks its source for anything has come to its reads. -/
theorem reachesRead_of_read {call : Call} (hread : call.isRead = true)
    (hcall : call ∈ (r.run s schedule).calls) : ∃ source, r.ReachesRead s source := by
  by_contra h
  have hmem := (mem_reads hread).mpr hcall
  rw [reads_eq_nil fun source hsource => h ⟨source, hsource⟩] at hmem
  cases hmem

/-- **Every run follows the protocol with its source**, whatever it is asked for and whatever it is
answered. -/
theorem run_follows_protocol (r : SyncRequest) (s : Services) (schedule : Schedule) :
    r.SourceProtocol s (r.run s schedule) where
  inOrder := reads_in_order r s schedule
  changes := by
    constructor
    · rintro ⟨since, hsince⟩
      obtain ⟨source, h⟩ := reachesRead_of_read rfl hsince
      obtain ⟨hmode, hgoes, -⟩ := changesSince_oldest h hsince
      exact ⟨⟨source, h⟩, hmode, since, hgoes⟩
    · rintro ⟨⟨source, h⟩, hmode, own, hown⟩
      exact changesSince_of_goesOn h hmode hown
  oldest := by
    intro since hsince
    obtain ⟨source, h⟩ := reachesRead_of_read rfl hsince
    exact (changesSince_oldest h hsince).2
  snapshot := by
    constructor
    · intro hasked
      obtain ⟨source, h⟩ := reachesRead_of_read rfl hasked
      exact ⟨source, h, (currentSnapshot_iff h).mp hasked⟩
    · rintro ⟨source, h, hsnapshot⟩
      exact (currentSnapshot_iff h).mpr hsnapshot
  causes := fun _ hrun _ _ _ _ ht hended hfailed => failure_has_cause hrun ht hended hfailed

end SyncRequest

end Lakehouse
