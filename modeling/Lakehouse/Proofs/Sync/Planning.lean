import Lakehouse.Proofs.Except
import Lakehouse.Proofs.Sync.SharedRead

/-!
# What a run does before it reads

Before a run reads the source it has checked the request, opened the targets and the source, and
looked up the positions of the targets. It comes that far exactly if none of the answers is fatal,
and it comes to its reads exactly if the source is open as well.

* `SyncRequest.plan`, `SyncRequest.prepare_eq_plan`: the part of a preparation before its reads.
* `SyncRequest.ReachesRead`, `SyncRequest.plan_eq_ok_iff`: what it takes to come to the reads.
* `SyncRequest.prepare_of_reachesRead`: a run that nothing fatal happens to comes to its commits.
* `SyncRequest.plan_reads_nothing`: no call before the reads reads the source.
-/

namespace Lakehouse

namespace TableRun

/-- What the reads of a run go by: the source, and the targets with their plans. -/
structure Planned where
  source : Source
  slots : List (Slot Pending)

end TableRun

open TableRun

/-! ## Answers about a target -/

namespace TableRun

variable {s : Services} {mode : SyncMode}

/-- A run goes on after a call about a target unless the answer is fatal. -/
theorem askAbout_bind_eq_ok {α β : Type} {t : TableDescriptor} {call : Call}
    {answer : Except Fault α} {next : Except Fault α → Run β} {b : β} :
    (askAbout t call answer >>= next).value = .ok b ↔
      (∀ f, answer = .error f → f.isFatal = false) ∧
        (next (answer.mapError (Fault.within t.label))).value = .ok b := by
  constructor
  · intro h
    obtain ⟨a, ha, hnext, -⟩ := Run.bind_inv h
    refine ⟨?_, askAbout_value ha ▸ hnext⟩
    rintro f rfl
    have hgo : Run.goOn (.error (.fault (f.within t.label))) = .ok a := ha
    exact Run.goOn_iff.mp ⟨a, hgo⟩ _ rfl
  · rintro ⟨hfatal, hnext⟩
    have hgo : ∃ a, (askAbout t call answer).value = .ok a := by
      refine Run.goOn_iff.mpr fun halt h => ?_
      cases answer with
      | ok a => cases h
      | error f =>
        cases h
        exact hfatal f rfl
    obtain ⟨a, ha⟩ := hgo
    rw [Run.bind_of_ok ha, askAbout_value ha]
    exact hnext

theorem openTarget_value_iff {t : TableDescriptor} :
    (openTarget s mode t).value = .ok (openedOf s mode t) ↔
      ∀ f, s.openTarget t = .error f → f.isFatal = false := by
  unfold openTarget
  rw [askAbout_bind_eq_ok, and_iff_left]
  unfold openedOf
  cases s.openTarget t with
  | ok target => rfl
  | error f => rfl

theorem planFor_value_iff {slot : Slot Opened} :
    (planFor s mode slot).value = .ok (plannedOf s mode slot) ↔
      ∀ o, slot = .ok o → ∀ f, s.position o.table = .error f → f.isFatal = false := by
  cases slot with
  | error result => exact iff_of_true rfl nofun
  | ok o =>
    simp only [planFor, plannedOf, Except.ok.injEq, forall_eq']
    rw [askAbout_bind_eq_ok, and_iff_left]
    cases s.position o.table with
    | ok position => rfl
    | error f => rfl

/-! ## Reads that are not stopped -/

variable {source : Source} {table : TableDescriptor} {slots : List (Slot Pending)}

/-- The changes are asked for if a target goes on from a position, and not otherwise. -/
theorem calls_readChanges : (readChanges source table slots).calls =
    ((oldest? (positions slots)).map (Call.changesSince table)).toList := by
  unfold readChanges
  cases hold : oldest? (positions slots) with
  | none =>
    simp only [show oldest? ((plans slots).filterMap Plan.since?) = none from hold]
    rfl
  | some since =>
    simp only [show oldest? ((plans slots).filterMap Plan.since?) = some since from hold]
    cases hv : (Run.ask (.changesSince table since) (source.changesSince since)).value with
    | error halt =>
      rw [Run.bind_of_error hv]
      rfl
    | ok answer =>
      rw [Run.bind_of_ok hv]
      match answer with
      | .ok (.changes cs) => rfl
      | .ok .unavailable => rfl
      | .error f => rfl

theorem readChanges_value_iff : (∃ read, (readChanges source table slots).value = .ok read) ↔
    ∀ since, oldest? (positions slots) = some since →
      ∀ halt, source.changesSince since = .error halt → halt.isFatal = false := by
  unfold readChanges
  cases hold : oldest? (positions slots) with
  | none =>
    simp only [show oldest? ((plans slots).filterMap Plan.since?) = none from hold]
    exact iff_of_true ⟨_, rfl⟩ nofun
  | some since =>
    simp only [show oldest? ((plans slots).filterMap Plan.since?) = some since from hold,
      Option.some.injEq, forall_eq', ← Run.goOn_iff]
    constructor
    · rintro ⟨read, hread⟩
      obtain ⟨answer, hanswer, -⟩ := Run.bind_inv hread
      exact ⟨answer, hanswer⟩
    · rintro ⟨answer, hanswer⟩
      have hv : (Run.ask (.changesSince table since) (source.changesSince since)).value =
        .ok answer := hanswer
      rw [Run.bind_of_ok hv]
      match answer with
      | .ok (.changes cs) => exact ⟨_, rfl⟩
      | .ok .unavailable => exact ⟨_, rfl⟩
      | .error f => exact ⟨_, rfl⟩

/-- The snapshot is asked for if a target is rebuilt, and not otherwise. -/
theorem calls_readSnapshot : (readSnapshot source table slots).calls =
    if Plan.full ∈ plans slots then [.currentSnapshot table] else [] := by
  unfold readSnapshot
  by_cases hfull : Plan.full ∈ plans slots
  · rw [if_pos hfull, if_pos hfull]
    cases hv : (Run.ask (.currentSnapshot table) source.snapshot).value with
    | error halt =>
      rw [Run.bind_of_error hv]
      rfl
    | ok answer =>
      rw [Run.bind_of_ok hv]
      rfl
  · rw [if_neg hfull, if_neg hfull]
    rfl

theorem readSnapshot_value (h : ∀ halt, source.snapshot = .error halt → halt.isFatal = false) :
    ∃ read, (readSnapshot source table slots).value = .ok read := by
  unfold readSnapshot
  by_cases hfull : Plan.full ∈ plans slots
  · obtain ⟨answer, hanswer⟩ := Run.goOn_iff.mpr h
    have hv : (Run.ask (.currentSnapshot table) source.snapshot).value = .ok answer := hanswer
    rw [if_pos hfull, Run.bind_of_ok hv]
    exact ⟨_, rfl⟩
  · rw [if_neg hfull]
    exact ⟨_, rfl⟩

end TableRun

/-! ## The part before the reads -/

namespace SyncRequest

variable {r : SyncRequest} {s : Services} {source : Source}

/-- The plans, once the targets are opened and the source is, or could not be. -/
def planWith (r : SyncRequest) (s : Services) (opened : List (Slot Opened)) :
    Except Fault Source → Run (Except (List TargetResult) Planned)
  | .error f => return .error (withoutSource r.mode f opened)
  | .ok source => do return .ok ⟨source, ← Run.each (planFor s r.mode) opened⟩

/-- The part of a preparation before its reads. -/
def plan (r : SyncRequest) (s : Services) : Run (Except (List TargetResult) Planned) := do
  Run.require r.check
  let opened ← Run.each (openTarget s r.mode) r.targets
  let answer ← openSource s r.source
  r.planWith s opened answer

/-- The reads of a preparation. -/
def read (r : SyncRequest) :
    Except (List TargetResult) Planned → Run (Except (List TargetResult) Prepared)
  | .error results => return .error results
  | .ok planned => do
    let (slots, changes) ← readChanges planned.source r.source planned.slots
    let snapshot ← readSnapshot planned.source r.source slots
    return .ok ⟨slots, changes, snapshot⟩

theorem prepare_eq_plan (r : SyncRequest) (s : Services) : r.prepare s = r.plan s >>= r.read := by
  unfold prepare plan
  rw [Run.bind_assoc]
  refine congrArg _ (funext fun _ => ?_)
  rw [Run.bind_assoc]
  refine congrArg _ (funext fun opened => ?_)
  rw [Run.bind_assoc]
  refine congrArg _ (funext fun answer => ?_)
  cases answer with
  | error f => rfl
  | ok source =>
    simp only [prepareWith, planWith]
    rw [Run.bind_assoc]
    rfl

/-- Nothing stops a run before its reads, and there is a source to read. -/
structure ReachesRead (r : SyncRequest) (s : Services) (source : Source) : Prop where
  sound : r.problem? = none
  targets : ∀ t ∈ r.targets, ∀ f, s.openTarget t = .error f → f.isFatal = false
  source : s.openSource r.source = .ok source
  /-- Only the positions of opened targets are looked up. -/
  positions : ∀ t ∈ r.targets, ∀ target, s.openTarget t = .ok target →
    ∀ f, s.position t = .error f → f.isFatal = false

theorem check_eq_ok : r.check = .ok () ↔ r.problem? = none := by
  unfold check
  cases r.problem? with
  | none => simp
  | some p => simp

/-- The targets of a request are planned for unless a look-up of one that was opened is fatal. -/
theorem plan_each_iff :
    (Run.each (planFor s r.mode) (r.targets.map (openedOf s r.mode))).value =
        .ok (r.targets.map (slotOf s r.mode)) ↔
      ∀ t ∈ r.targets, ∀ target, s.openTarget t = .ok target →
        ∀ f, s.position t = .error f → f.isFatal = false := by
  have hmap : r.targets.map (slotOf s r.mode) =
      (r.targets.map (openedOf s r.mode)).map (plannedOf s r.mode) := List.map_map.symm
  rw [hmap, Run.each_value_iff fun _ _ => planFor_value, List.forall_mem_map]
  refine forall₂_congr fun t _ => ?_
  rw [planFor_value_iff]
  unfold openedOf
  cases s.openTarget t with
  | ok target => simp
  | error f => simp

/-- **A run comes to its reads exactly if no answer before them is fatal.** It has then planned for
each target by the answers about this target alone. -/
theorem plan_eq_ok_iff {planned : Planned} : (r.plan s).value = .ok (.ok planned) ↔
    r.ReachesRead s planned.source ∧ planned.slots = r.targets.map (slotOf s r.mode) := by
  constructor
  · intro h
    obtain ⟨_, hcheck, h, -⟩ := Run.bind_inv h
    obtain ⟨opened, hopened, h, -⟩ := Run.bind_inv h
    obtain ⟨answer, hanswer, h, -⟩ := Run.bind_inv h
    obtain ⟨rfl, -⟩ := Run.each_inv (fun _ _ => openTarget_value) hopened
    cases answer with
    | error f => cases h
    | ok source =>
      obtain ⟨slots, hslots, h, -⟩ := Run.bind_inv h
      cases h
      have hsame := (Run.each_inv (fun _ _ => planFor_value) hslots).1
      rw [List.map_map] at hsame
      subst hsame
      refine ⟨⟨?_, ?_, openSource_eq_ok hanswer, plan_each_iff.mp hslots⟩, rfl⟩
      · exact check_eq_ok.mp (mapError_eq_ok.mp hcheck)
      · exact fun t ht => openTarget_value_iff.mp
          ((Run.each_value_iff fun _ _ => openTarget_value).mp hopened t ht)
  · obtain ⟨source, slots⟩ := planned
    rintro ⟨h, rfl⟩
    have hcheck : (Run.require r.check).value = .ok () := by
      rw [check_eq_ok.mpr h.sound]
      rfl
    have hopened : (Run.each (openTarget s r.mode) r.targets).value =
        .ok (r.targets.map (openedOf s r.mode)) :=
      (Run.each_value_iff fun _ _ => openTarget_value).mpr fun t ht =>
        openTarget_value_iff.mpr (h.targets t ht)
    have hsource : (TableRun.openSource s r.source).value = .ok (.ok source) := by
      unfold TableRun.openSource
      rw [h.source]
      rfl
    unfold plan
    rw [Run.bind_of_ok hcheck, Run.bind_of_ok hopened, Run.bind_of_ok hsource]
    simp only [planWith]
    rw [Run.bind_of_ok (plan_each_iff.mpr h.positions)]
    rfl

/-- **A run that nothing fatal happens to comes to its commits.** -/
theorem prepare_of_reachesRead (h : r.ReachesRead s source)
    (hchanges : ∀ c halt, source.changesSince c = .error halt → halt.isFatal = false)
    (hsnapshot : ∀ halt, source.snapshot = .error halt → halt.isFatal = false) :
    ∃ p, (r.prepare s).value = .ok (.ok p) := by
  have hplan : (r.plan s).value = .ok (.ok ⟨source, r.targets.map (slotOf s r.mode)⟩) :=
    plan_eq_ok_iff.mpr ⟨h, rfl⟩
  have hgoes : ∃ read, (readChanges source r.source (r.targets.map (slotOf s r.mode))).value =
      .ok read := readChanges_value_iff.mpr fun since _ => hchanges since
  obtain ⟨⟨slots, changes⟩, hread⟩ := hgoes
  have hgoes' : ∃ read, (readSnapshot source r.source slots).value = .ok read :=
    readSnapshot_value hsnapshot
  obtain ⟨snapshot, hsnap⟩ := hgoes'
  refine ⟨⟨slots, changes, snapshot⟩, ?_⟩
  rw [prepare_eq_plan, Run.bind_of_ok hplan]
  simp only [read]
  rw [Run.bind_of_ok hread, Run.bind_of_ok hsnap]
  rfl

/-! ## The calls before the reads -/

theorem planWith_reads_nothing {opened : List (Slot Opened)} (answer : Except Fault Source) :
    ∀ c ∈ (r.planWith s opened answer).calls, c.isRead = false := by
  cases answer with
  | error f => exact fun c hc => nomatch hc
  | ok source =>
    refine Run.forall_calls_bind (Run.forall_calls_each fun slot _ c hc => ?_)
      fun _ _ c hc => nomatch hc
    obtain ⟨o, -, rfl⟩ := calls_planFor hc
    rfl

/-- **No call before the reads reads the source**, wherever the run is stopped. -/
theorem plan_reads_nothing (r : SyncRequest) (s : Services) :
    ∀ c ∈ (r.plan s).calls, c.isRead = false := by
  unfold plan
  refine Run.forall_calls_bind (fun c hc => nomatch hc) fun _ _ => ?_
  refine Run.forall_calls_bind (Run.forall_calls_each fun t _ c hc => ?_) fun opened _ => ?_
  · rw [calls_openTarget, List.mem_singleton] at hc
    rw [hc]
    rfl
  · refine Run.forall_calls_bind (fun c hc => ?_) fun answer _ => planWith_reads_nothing answer
    rw [List.mem_singleton.mp hc]
    rfl

end SyncRequest

end Lakehouse
