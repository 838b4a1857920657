import Lakehouse.Proofs.Sync.Preparation
import Lakehouse.Proofs.Table.History

/-!
# What a run reads of its source

A preparation that was not stopped has opened the source, planned for every target on its own, and
read what the plans ask for: the changes since the oldest position, if some target goes on from one,
and the snapshot, if some target is rebuilt.

* `TableRun.oldest?_spec`: the oldest position is one of those given, and none of them is before it.
* `TableRun.ChangesRead`, `TableRun.SnapshotRead`: everything that reading can come to, with the
  calls it takes.
* `TableRun.Readied`, `SyncRequest.prepare_inv`: all that a preparation can have found out.
* `SyncRequest.formats_differ`: the targets of a request that is run differ in their formats.
-/

namespace Lakehouse

/-- Whether a call reads the source. -/
def Call.isRead : Call → Bool
  | .changesSince .. | .currentSnapshot .. => true
  | _ => false

namespace TableRun

/-! ## The oldest position -/

theorem foldl_older (cs : List Checkpoint) (b : Checkpoint) :
    let m := cs.foldl (fun best c => if c.before best then c else best) b
    m ∈ b :: cs ∧ ∀ d ∈ b :: cs, m.upTo d = true := by
  induction cs generalizing b with
  | nil =>
    refine ⟨List.mem_singleton.mpr rfl, fun d hd => ?_⟩
    rw [List.mem_singleton.mp hd]
    exact Checkpoint.upTo_refl b
  | cons c cs ih =>
    simp only [List.foldl_cons]
    by_cases hc : c.before b = true
    · rw [if_pos hc]
      obtain ⟨hmem, hle⟩ := ih c
      refine ⟨List.mem_cons_of_mem b hmem, fun d hd => ?_⟩
      rcases List.mem_cons.mp hd with rfl | hd
      · exact Checkpoint.upTo_trans (hle c List.mem_cons_self) (Checkpoint.upTo_of_before hc)
      · exact hle d hd
    · rw [if_neg hc]
      obtain ⟨hmem, hle⟩ := ih b
      have hbc : b.upTo c = true := Checkpoint.upTo_iff.mpr (Bool.not_eq_true _ ▸ hc)
      refine ⟨?_, fun d hd => ?_⟩
      · rcases List.mem_cons.mp hmem with hm | hm
        · rw [hm]
          exact List.mem_cons_self
        · exact List.mem_cons_of_mem b (List.mem_cons_of_mem c hm)
      · rcases List.mem_cons.mp hd with rfl | hd
        · exact hle _ List.mem_cons_self
        · rcases List.mem_cons.mp hd with rfl | hd
          · exact Checkpoint.upTo_trans (hle b List.mem_cons_self) hbc
          · exact hle d (List.mem_cons_of_mem b hd)

/-- The oldest position is one of those given, and none of them is before it. -/
theorem oldest?_spec {cs : List Checkpoint} {c : Checkpoint} (h : oldest? cs = some c) :
    c ∈ cs ∧ ∀ d ∈ cs, c.upTo d = true := by
  cases cs with
  | nil => cases h
  | cons b cs =>
    simp only [oldest?, Option.some.injEq] at h
    rw [← h]
    exact foldl_older cs b

theorem oldest?_eq_none {cs : List Checkpoint} : oldest? cs = none ↔ cs = [] := by
  cases cs with
  | nil => exact ⟨fun _ => rfl, fun _ => rfl⟩
  | cons b cs => exact ⟨nofun, nofun⟩

/-! ## Plans -/

/-- The positions that targets go on from. -/
def positions (slots : List (Slot Pending)) : List Checkpoint :=
  (plans slots).filterMap Plan.since?

theorem mem_plans {slots : List (Slot Pending)} {plan : Plan} :
    plan ∈ plans slots ↔ ∃ p, .ok p ∈ slots ∧ p.plan = plan := by
  unfold plans
  rw [List.mem_filterMap]
  constructor
  · rintro ⟨slot, hslot, hp⟩
    cases slot with
    | error result => cases hp
    | ok p => exact ⟨p, hslot, Option.some.inj hp⟩
  · rintro ⟨p, hp, rfl⟩
    exact ⟨.ok p, hp, rfl⟩

theorem since?_eq_some {plan : Plan} {c : Checkpoint} :
    plan.since? = some c ↔ plan = .incremental c := by
  cases plan with
  | full => exact ⟨nofun, nofun⟩
  | incremental d =>
    simp only [Plan.since?, Option.some.injEq, Plan.incremental.injEq]

theorem Plan.of_eq_incremental {mode : SyncMode} {position : Option Checkpoint} {c : Checkpoint}
    (h : Plan.of mode position = .incremental c) : mode = .incremental ∧ position = some c := by
  cases mode with
  | full => cases h
  | incremental =>
    cases position with
    | none => cases h
    | some d =>
      cases h
      exact ⟨rfl, rfl⟩

theorem mem_positions {slots : List (Slot Pending)} {c : Checkpoint} :
    c ∈ positions slots ↔ ∃ p, .ok p ∈ slots ∧ p.plan = .incremental c := by
  unfold positions
  rw [List.mem_filterMap]
  constructor
  · rintro ⟨plan, hplan, hc⟩
    obtain ⟨p, hp, rfl⟩ := mem_plans.mp hplan
    exact ⟨p, hp, since?_eq_some.mp hc⟩
  · rintro ⟨p, hp, hc⟩
    exact ⟨p.plan, mem_plans.mpr ⟨p, hp, rfl⟩, since?_eq_some.mpr hc⟩

/-! ## Reading -/

/-- What becomes of a target where all are rebuilt. -/
def rebuilt (slot : Slot Pending) : Slot Pending := slot.map fun p => { p with plan := .full }

/-- All that reading the changes can come to: what becomes of the targets, what was read, and the
calls it took. -/
inductive ChangesRead (source : Source) (table : TableDescriptor) (slots : List (Slot Pending)) :
    (Slot Pending → Slot Pending) → Reading (List Change) → List Call → Prop where
  /-- No target goes on from a position. -/
  | notNeeded (hold : oldest? (positions slots) = none) : ChangesRead source table slots id none []
  | read {since : Checkpoint} {cs : List Change}
      (hold : oldest? (positions slots) = some since)
      (hcs : source.changesSince since = .ok (.changes cs)) :
      ChangesRead source table slots id (some (.ok cs)) [.changesSince table since]
  /-- The history is no longer kept, and every target is rebuilt. -/
  | unavailable {since : Checkpoint} (hold : oldest? (positions slots) = some since)
      (hun : source.changesSince since = .ok .unavailable) :
      ChangesRead source table slots rebuilt none [.changesSince table since]
  | failed {since : Checkpoint} {f : Fault} (hold : oldest? (positions slots) = some since)
      (hf : source.changesSince since = .error (.fault f)) (hfatal : f.isFatal = false) :
      ChangesRead source table slots id (some (.error f)) [.changesSince table since]

/-- All that reading the snapshot can come to, with the calls it took. -/
inductive SnapshotRead (source : Source) (table : TableDescriptor) (slots : List (Slot Pending)) :
    Reading Snapshot → List Call → Prop where
  /-- No target is rebuilt. -/
  | notNeeded (hfull : Plan.full ∉ plans slots) : SnapshotRead source table slots none []
  | read {snapshot : Snapshot} (hfull : Plan.full ∈ plans slots)
      (hs : source.snapshot = .ok snapshot) :
      SnapshotRead source table slots (some (.ok snapshot)) [.currentSnapshot table]
  | failed {f : Fault} (hfull : Plan.full ∈ plans slots)
      (hf : source.snapshot = .error (.fault f)) (hfatal : f.isFatal = false) :
      SnapshotRead source table slots (some (.error f)) [.currentSnapshot table]

variable {source : Source} {table : TableDescriptor} {slots : List (Slot Pending)}

theorem readChanges_inv {read : List (Slot Pending) × Reading (List Change)}
    (h : (readChanges source table slots).value = .ok read) :
    ∃ becomes, read.1 = slots.map becomes ∧
      ChangesRead source table slots becomes read.2 (readChanges source table slots).calls := by
  unfold readChanges at h ⊢
  cases hold : oldest? (positions slots) with
  | none =>
    simp only [show oldest? ((plans slots).filterMap Plan.since?) = none from hold] at h ⊢
    cases h
    exact ⟨id, (List.map_id _).symm, .notNeeded hold⟩
  | some since =>
    simp only [show oldest? ((plans slots).filterMap Plan.since?) = some since from hold] at h ⊢
    obtain ⟨answer, hanswer, hrest, hcalls⟩ := Run.bind_inv h
    rw [hcalls]
    match answer, hanswer, hrest with
    | .ok (.changes cs), hanswer, hrest =>
      cases hrest
      exact ⟨id, (List.map_id _).symm, .read hold (Run.goOn_eq_ok.mp hanswer)⟩
    | .ok .unavailable, hanswer, hrest =>
      cases hrest
      exact ⟨rebuilt, rfl, .unavailable hold (Run.goOn_eq_ok.mp hanswer)⟩
    | .error f, hanswer, hrest =>
      cases hrest
      obtain ⟨hf, hfatal⟩ := Run.goOn_eq_fault.mp hanswer
      exact ⟨id, (List.map_id _).symm, .failed hold hf hfatal⟩

theorem readSnapshot_inv {read : Reading Snapshot}
    (h : (readSnapshot source table slots).value = .ok read) :
    SnapshotRead source table slots read (readSnapshot source table slots).calls := by
  unfold readSnapshot at h ⊢
  by_cases hfull : Plan.full ∈ plans slots
  · rw [if_pos hfull] at h ⊢
    obtain ⟨answer, hanswer, hrest, hcalls⟩ := Run.bind_inv h
    rw [hcalls]
    cases hrest
    cases answer with
    | ok snapshot => exact .read hfull (Run.goOn_eq_ok.mp hanswer)
    | error f =>
      obtain ⟨hf, hfatal⟩ := Run.goOn_eq_fault.mp hanswer
      exact .failed hfull hf hfatal
  · rw [if_neg hfull] at h ⊢
    cases h
    exact .notNeeded hfull

theorem ChangesRead.filter_isRead {becomes : Slot Pending → Slot Pending}
    {changes : Reading (List Change)} {calls : List Call}
    (h : ChangesRead source table slots becomes changes calls) :
    calls.filter Call.isRead = calls := by
  cases h with
  | notNeeded => rfl
  | read => rfl
  | unavailable => rfl
  | failed => rfl

theorem SnapshotRead.filter_isRead {snapshot : Reading Snapshot} {calls : List Call}
    (h : SnapshotRead source table slots snapshot calls) :
    calls.filter Call.isRead = calls := by
  cases h with
  | notNeeded => rfl
  | read => rfl
  | failed => rfl

/-- Changes that were read are the answer since the oldest position. -/
theorem ChangesRead.of_changes {becomes : Slot Pending → Slot Pending} {calls : List Call}
    {all : List Change}
    (h : ChangesRead source table slots becomes (some (.ok all)) calls) :
    becomes = id ∧ ∃ since, oldest? (positions slots) = some since ∧
      source.changesSince since = .ok (.changes all) := by
  cases h with
  | read hold hcs => exact ⟨rfl, _, hold, hcs⟩

theorem SnapshotRead.of_snapshot {snapshot : Snapshot} {calls : List Call}
    (h : SnapshotRead source table slots (some (.ok snapshot)) calls) :
    source.snapshot = .ok snapshot := by
  cases h with
  | read _ hs => exact hs

/-- Reading leaves a target's failure alone. -/
theorem ChangesRead.becomes_error {becomes : Slot Pending → Slot Pending}
    {changes : Reading (List Change)} {calls : List Call}
    (h : ChangesRead source table slots becomes changes calls) (result : TargetResult) :
    becomes (.error result) = .error result := by
  cases h with
  | notNeeded => rfl
  | read => rfl
  | unavailable => rfl
  | failed => rfl

/-- Reading changes at most the plan of a target, and only to rebuild it. -/
theorem ChangesRead.becomes_ok {becomes : Slot Pending → Slot Pending}
    {changes : Reading (List Change)} {calls : List Call}
    (h : ChangesRead source table slots becomes changes calls) (p : Pending) :
    ∃ plan, becomes (.ok p) = .ok { p with plan } ∧ (plan = p.plan ∨ plan = .full) := by
  cases h with
  | notNeeded => exact ⟨p.plan, rfl, Or.inl rfl⟩
  | read => exact ⟨p.plan, rfl, Or.inl rfl⟩
  | unavailable => exact ⟨.full, rfl, Or.inr rfl⟩
  | failed => exact ⟨p.plan, rfl, Or.inl rfl⟩

/-- All that a preparation can have found out: the request has no problem, the source is open, and
each target has become what the answers about it and the reading of the changes made of it. -/
structure Readied (r : SyncRequest) (s : Services) (source : Source)
    (becomes : Slot Pending → Slot Pending) (changeCalls snapshotCalls : List Call)
    (p : Prepared) : Prop where
  sound : r.problem? = none
  opened : s.openSource r.source = .ok source
  slots : p.slots = r.targets.map fun t => becomes (slotOf s r.mode t)
  changes : ChangesRead source r.source (r.targets.map (slotOf s r.mode)) becomes p.changes
    changeCalls
  snapshot : SnapshotRead source r.source p.slots p.snapshot snapshotCalls
  reads : (r.prepare s).calls.filter Call.isRead = changeCalls ++ snapshotCalls

/-- What is known of a target that is still in the run when it comes to the commits. -/
theorem Readied.pending {r : SyncRequest} {s : Services}
    {becomes : Slot Pending → Slot Pending} {changeCalls snapshotCalls : List Call}
    {prepared : Prepared} (h : Readied r s source becomes changeCalls snapshotCalls prepared)
    {t : TableDescriptor} {p : Pending} (hp : becomes (slotOf s r.mode t) = .ok p) :
    p.table = t ∧ s.openTarget t = .ok p.target ∧ ∃ position, s.position t = .ok position ∧
      (p.plan = .of r.mode position ∨ p.plan = .full) := by
  cases hslot : slotOf s r.mode t with
  | error result =>
    rw [hslot, h.changes.becomes_error] at hp
    cases hp
  | ok q =>
    obtain ⟨htable, htarget, position, hposition, hplan⟩ := slotOf_eq_ok hslot
    obtain ⟨plan, hbecomes, hkept⟩ := h.changes.becomes_ok q
    rw [hslot, hbecomes] at hp
    cases hp
    rw [hplan] at hkept
    exact ⟨htable, htarget, position, hposition, hkept⟩

/-- What is known of a target that is no longer in the run by then. -/
theorem Readied.failed {r : SyncRequest} {s : Services}
    {becomes : Slot Pending → Slot Pending} {changeCalls snapshotCalls : List Call}
    {prepared : Prepared} (h : Readied r s source becomes changeCalls snapshotCalls prepared)
    {t : TableDescriptor} {result : TargetResult}
    (hresult : becomes (slotOf s r.mode t) = .error result) :
    ∃ f, result = .failed t r.mode f := by
  cases hslot : slotOf s r.mode t with
  | ok q =>
    obtain ⟨plan, hbecomes, -⟩ := h.changes.becomes_ok q
    rw [hslot, hbecomes] at hresult
    cases hresult
  | error failed =>
    rw [hslot, h.changes.becomes_error] at hresult
    cases hresult
    exact slotOf_eq_error hslot

end TableRun

open TableRun

namespace SyncRequest

variable {r : SyncRequest} {s : Services}

theorem problem?_of_check (h : r.check = .ok ()) : r.problem? = none := by
  unfold check at h
  split at h
  · cases h
  · rename_i hp
    exact hp

/-- A preparation that was not stopped has opened all targets and has heard of the source. It has
read nothing so far. -/
theorem prepare_value {x : Except (List TargetResult) Prepared}
    (h : (r.prepare s).value = .ok x) :
    r.problem? = none ∧ ∃ answer, (openSource s r.source).value = .ok answer ∧
      (r.prepareWith s (r.targets.map (openedOf s r.mode)) answer).value = .ok x ∧
      (r.prepare s).calls.filter Call.isRead =
        (r.prepareWith s (r.targets.map (openedOf s r.mode)) answer).calls.filter Call.isRead := by
  obtain ⟨_, hcheck, h, hcalls⟩ := Run.bind_inv h
  obtain ⟨opened, hopened, h, hcalls'⟩ := Run.bind_inv h
  obtain ⟨answer, hanswer, h, hcalls''⟩ := Run.bind_inv h
  obtain ⟨rfl, hasked⟩ := Run.each_inv (fun t o => openTarget_value) hopened
  refine ⟨?_, answer, hanswer, h, ?_⟩
  · cases hc : r.check with
    | ok u => exact problem?_of_check hc
    | error f => rw [hc] at hcheck; cases hcheck
  · have hquiet : (r.targets.flatMap fun t => (openTarget s r.mode t).calls).filter
        Call.isRead = [] := by
      rw [List.filter_eq_nil_iff]
      intro c hc
      obtain ⟨t, -, hc⟩ := List.mem_flatMap.mp hc
      rw [calls_openTarget, List.mem_singleton] at hc
      rw [hc]
      exact Bool.false_ne_true
    show ((Run.require r.check >>= _).calls).filter Call.isRead = _
    rw [hcalls, hcalls', hcalls'', hasked, List.filter_append, List.filter_append,
      List.filter_append, hquiet]
    rfl

/-- A preparation without a source has come to a fault for every target. -/
theorem prepare_inv_error {results : List TargetResult}
    (h : (r.prepare s).value = .ok (.error results)) :
    r.problem? = none ∧ ∃ f, s.openSource r.source = .error f ∧ f.isFatal = false ∧
      results = withoutSource r.mode f (r.targets.map (openedOf s r.mode)) := by
  obtain ⟨hsound, answer, hanswer, h, -⟩ := prepare_value h
  refine ⟨hsound, ?_⟩
  cases answer with
  | error f =>
    cases h
    obtain ⟨hs, hfatal⟩ := openSource_eq_error hanswer
    exact ⟨f, hs, hfatal, rfl⟩
  | ok source =>
    obtain ⟨planned, -, h, -⟩ := Run.bind_inv h
    obtain ⟨⟨slots, changes⟩, -, h, -⟩ := Run.bind_inv h
    obtain ⟨snapshot, -, h, -⟩ := Run.bind_inv h
    cases h

/-- The fault of a target without a source: one that could not be opened keeps its own. -/
def faultWithout (s : Services) (f : Fault) (t : TableDescriptor) : Fault :=
  match s.openTarget t with
  | .ok _ => f
  | .error e => e

/-- Without a source every target fails, for the one reason or the other. -/
theorem withoutSource_map (r : SyncRequest) (s : Services) (f : Fault) :
    withoutSource r.mode f (r.targets.map (openedOf s r.mode)) =
      r.targets.map fun t => .failed t r.mode (faultWithout s f t) := by
  unfold withoutSource
  rw [List.map_map]
  refine List.map_congr_left fun t _ => ?_
  simp only [Function.comp_apply, openedOf, faultWithout]
  cases s.openTarget t with
  | ok target => rfl
  | error e => rfl

theorem prepare_inv_failed {results : List TargetResult}
    (h : (r.prepare s).value = .ok (.error results)) :
    ∃ g : TableDescriptor → Fault, results = r.targets.map fun t => .failed t r.mode (g t) := by
  obtain ⟨-, f, -, -, rfl⟩ := prepare_inv_error h
  exact ⟨faultWithout s f, withoutSource_map r s f⟩

/-- With a source, a preparation plans for every target on its own, and reads. -/
theorem prepareWith_inv {opened : List (Slot Opened)} {source : Source} {p : Prepared}
    (h : (r.prepareWith s opened (.ok source)).value = .ok (.ok p)) :
    ∃ becomes changeCalls snapshotCalls,
      p.slots = (opened.map (plannedOf s r.mode)).map becomes ∧
      ChangesRead source r.source (opened.map (plannedOf s r.mode)) becomes p.changes changeCalls ∧
      SnapshotRead source r.source p.slots p.snapshot snapshotCalls ∧
      (r.prepareWith s opened (.ok source)).calls.filter Call.isRead =
        changeCalls ++ snapshotCalls := by
  obtain ⟨planned, hplanned, hafter, hcalls⟩ := Run.bind_inv h
  obtain ⟨⟨slots, changes⟩, hread, hlast, hcalls'⟩ := Run.bind_inv hafter
  obtain ⟨snapshot, hsnapshot, hdone, hcalls''⟩ := Run.bind_inv hlast
  have hsame : planned = opened.map (plannedOf s r.mode) :=
    (Run.each_inv (fun _ _ => planFor_value) hplanned).1
  have hlooked := (Run.each_inv (fun _ _ => planFor_value) hplanned).2
  obtain ⟨becomes, hslots, hchanges⟩ := readChanges_inv hread
  have hsnap := readSnapshot_inv hsnapshot
  have hquiet : (Run.each (planFor s r.mode) opened).calls.filter Call.isRead = [] := by
    rw [List.filter_eq_nil_iff, hlooked]
    intro c hc
    obtain ⟨slot, -, hc⟩ := List.mem_flatMap.mp hc
    obtain ⟨o, -, rfl⟩ := calls_planFor hc
    exact Bool.false_ne_true
  cases hdone
  rw [← hsame]
  refine ⟨becomes, _, _, hslots, hchanges, hsnap, ?_⟩
  show ((Run.each (planFor s r.mode) opened >>= _).calls).filter Call.isRead = _
  rw [hcalls, hcalls', hcalls'', List.filter_append, List.filter_append, List.filter_append,
    hquiet, hchanges.filter_isRead, hsnap.filter_isRead, List.nil_append]
  exact congrArg _ (List.append_nil _)

/-- **All that a preparation can have found out.** -/
theorem prepare_inv {p : Prepared} (h : (r.prepare s).value = .ok (.ok p)) :
    ∃ source becomes changeCalls snapshotCalls,
      Readied r s source becomes changeCalls snapshotCalls p := by
  obtain ⟨hsound, answer, hanswer, h, hreads⟩ := prepare_value h
  cases answer with
  | error f => cases h
  | ok source =>
    obtain ⟨becomes, changeCalls, snapshotCalls, hslots, hchanges, hsnap, hcalls⟩ :=
      prepareWith_inv h
    have hmap : (r.targets.map (openedOf s r.mode)).map (plannedOf s r.mode) =
        r.targets.map (slotOf s r.mode) := List.map_map
    rw [hmap] at hslots hchanges
    rw [List.map_map] at hslots
    exact ⟨source, becomes, changeCalls, snapshotCalls, hsound, openSource_eq_ok hanswer, hslots,
      hchanges, hsnap, hreads.trans hcalls⟩

/-! ## The formats of the targets -/

theorem formats_of_targetProblem? {source : TableDescriptor} :
    ∀ {targets : List TableDescriptor} {seen : List String},
      targetProblem? source seen targets = none →
      (∀ t ∈ targets, Text.upper t.format ∉ seen) ∧
        targets.Pairwise fun t u => Text.upper t.format ≠ Text.upper u.format
  | [], _, _ => ⟨fun _ ht => absurd ht List.not_mem_nil, List.Pairwise.nil⟩
  | t :: rest, seen, h => by
    simp only [targetProblem?] at h
    split at h
    · cases h
    · split at h
      · cases h
      · split at h
        · cases h
        · rename_i hnew
          obtain ⟨hseen, hpair⟩ := formats_of_targetProblem? h
          refine ⟨fun u hu => ?_, List.pairwise_cons.mpr ⟨fun u hu heq => ?_, hpair⟩⟩
          · rcases List.mem_cons.mp hu with rfl | hu
            · exact hnew
            · exact fun hmem => hseen u hu (List.mem_cons_of_mem _ hmem)
          · exact hseen u hu (heq ▸ List.mem_cons_self)

/-- The targets of a request without a problem differ in the letters of their formats, whatever
their case. -/
theorem formats_differ (h : r.problem? = none) :
    r.targets.Pairwise fun t u => Text.upper t.format ≠ Text.upper u.format := by
  unfold problem? at h
  split at h
  · cases h
  · exact (formats_of_targetProblem? h).2

/-- Two targets of a request without a problem have different formats. -/
theorem formats_ne (h : r.problem? = none) {i j : Nat} {t u : TableDescriptor}
    (hi : r.targets[i]? = some t) (hj : r.targets[j]? = some u) (hne : i ≠ j) :
    Text.upper t.format ≠ Text.upper u.format := by
  obtain ⟨hilt, rfl⟩ := List.getElem?_eq_some_iff.mp hi
  obtain ⟨hjlt, rfl⟩ := List.getElem?_eq_some_iff.mp hj
  have hpair := List.pairwise_iff_getElem.mp (formats_differ h)
  rcases Nat.lt_or_gt_of_ne hne with hlt | hgt
  · exact hpair i j hilt hjlt hlt
  · exact (hpair j i hjlt hilt hgt).symm

end SyncRequest

end Lakehouse
