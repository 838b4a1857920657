import Lakehouse.Proofs.Sync.Run
import Lakehouse.Sync.TableRun

/-!
# What a run finds out before its first commit

The run of a request is a preparation, which opens, plans and reads, and then the commits. All that
can stop a run lies in the preparation, and all that changes a target lies in the commits.

* `SyncRequest.prepare`, `SyncRequest.run_eq_prepare`: the two parts of a run.
* `TableRun.slotOf`: what becomes of a single target, from the answers about it alone.
* `SyncRequest.Raises`, `SyncRequest.MayStop`: what goes wrong, and what of it stops a run.
* `SyncRequest.guarded_prepare`: a preparation commits nothing, and what stops it is a fatal fault
  or a crash.
-/

namespace Lakehouse

namespace TableRun

/-- What the commits of a run go by: the targets, and what was read for them. -/
structure Prepared where
  slots : List (Slot Pending)
  changes : Reading (List Change)
  snapshot : Reading Snapshot

end TableRun

open TableRun

namespace SyncRequest

/-! ## The two parts of a run -/

/-- The preparation once the targets are opened and the source is, or could not be. Without a
source the run has come to its results. -/
def prepareWith (r : SyncRequest) (s : Services) (opened : List (Slot Opened)) :
    Except Fault Source → Run (Except (List TargetResult) Prepared)
  | .error f => return .error (withoutSource r.mode f opened)
  | .ok source => do
    let planned ← Run.each (planFor s r.mode) opened
    let (planned, changes) ← readChanges source r.source planned
    let snapshot ← readSnapshot source r.source planned
    return .ok ⟨planned, changes, snapshot⟩

/-- The part of a run before its commits. -/
def prepare (r : SyncRequest) (s : Services) : Run (Except (List TargetResult) Prepared) := do
  Run.require r.check
  let opened ← Run.each (openTarget s r.mode) r.targets
  let answer ← openSource s r.source
  r.prepareWith s opened answer

/-- The part of a run from its commits on. -/
def conclude (r : SyncRequest) (s : Services) (schedule : Schedule) :
    Except (List TargetResult) Prepared → Run TableResult
  | .error results => return .of r.source results
  | .ok p => do return .of r.source (← settleAll s schedule p.snapshot p.changes p.slots)

theorem run_eq_prepare (r : SyncRequest) (s : Services) (schedule : Schedule) :
    r.run s schedule = r.prepare s >>= r.conclude s schedule := by
  unfold run prepare
  rw [Run.bind_assoc]
  refine congrArg _ (funext fun _ => ?_)
  rw [Run.bind_assoc]
  refine congrArg _ (funext fun opened => ?_)
  rw [Run.bind_assoc]
  refine congrArg _ (funext fun answer => ?_)
  cases answer with
  | error f => rfl
  | ok source =>
    simp only [prepareWith]
    rw [Run.bind_assoc]
    refine congrArg _ (funext fun planned => ?_)
    rw [Run.bind_assoc]
    refine congrArg _ (funext fun read => ?_)
    rw [Run.bind_assoc]
    rfl

end SyncRequest

/-! ## What becomes of a single target -/

namespace TableRun

variable {s : Services} {mode : SyncMode}

/-- What opening a target comes to. -/
def openedOf (s : Services) (mode : SyncMode) (t : TableDescriptor) : Slot Opened :=
  match s.openTarget t with
  | .ok target => .ok ⟨t, target⟩
  | .error f => .error (.failed t mode f)

/-- What planning for an opened target comes to. -/
def plannedOf (s : Services) (mode : SyncMode) : Slot Opened → Slot Pending
  | .error result => .error result
  | .ok o =>
    match s.position o.table with
    | .ok position => .ok ⟨o.table, o.target, .of mode position⟩
    | .error f => .error (.failed o.table mode f)

/-- What opening a target and planning for it comes to. -/
def slotOf (s : Services) (mode : SyncMode) (t : TableDescriptor) : Slot Pending :=
  plannedOf s mode (openedOf s mode t)

theorem openedOf_eq_ok {t : TableDescriptor} {o : Opened} (h : openedOf s mode t = .ok o) :
    o.table = t ∧ s.openTarget t = .ok o.target := by
  unfold openedOf at h
  cases ho : s.openTarget t with
  | ok target => rw [ho] at h; cases h; exact ⟨rfl, rfl⟩
  | error f => rw [ho] at h; cases h

theorem slotOf_eq_ok {t : TableDescriptor} {p : Pending} (h : slotOf s mode t = .ok p) :
    p.table = t ∧ s.openTarget t = .ok p.target ∧
      ∃ position, s.position t = .ok position ∧ p.plan = .of mode position := by
  unfold slotOf openedOf at h
  cases ho : s.openTarget t with
  | error f => rw [ho] at h; cases h
  | ok target =>
    rw [ho] at h
    simp only [plannedOf] at h
    cases hp : s.position t with
    | error f => rw [hp] at h; cases h
    | ok position =>
      rw [hp] at h
      cases h
      exact ⟨rfl, rfl, position, rfl, rfl⟩

theorem slotOf_of_ok {t : TableDescriptor} {target : Target} {position : Option Checkpoint}
    (ho : s.openTarget t = .ok target) (hp : s.position t = .ok position) :
    slotOf s mode t = .ok ⟨t, target, .of mode position⟩ := by
  unfold slotOf openedOf
  rw [ho]
  simp only [plannedOf]
  rw [hp]

theorem slotOf_of_unopened {t : TableDescriptor} {f : Fault} (ho : s.openTarget t = .error f) :
    slotOf s mode t = .error (.failed t mode f) := by
  unfold slotOf openedOf
  rw [ho]
  rfl

theorem slotOf_of_not_looked_up {t : TableDescriptor} {target : Target} {f : Fault}
    (ho : s.openTarget t = .ok target) (hp : s.position t = .error f) :
    slotOf s mode t = .error (.failed t mode f) := by
  unfold slotOf openedOf
  rw [ho]
  simp only [plannedOf]
  rw [hp]

/-- A failed target has a result of its own, which says that it failed. -/
theorem slotOf_eq_error {t : TableDescriptor} {result : TargetResult}
    (h : slotOf s mode t = .error result) : ∃ f, result = .failed t mode f := by
  unfold slotOf openedOf at h
  cases ho : s.openTarget t with
  | error f => rw [ho] at h; cases h; exact ⟨f, rfl⟩
  | ok target =>
    rw [ho] at h
    simp only [plannedOf] at h
    cases hp : s.position t with
    | error f => rw [hp] at h; cases h; exact ⟨f, rfl⟩
    | ok position => rw [hp] at h; cases h

/-- An answer about a target that does not stop the run carries the target's label. -/
theorem askAbout_value {α : Type} {t : TableDescriptor} {call : Call} {answer : Except Fault α}
    {a : Except Fault α} (h : (askAbout t call answer).value = .ok a) :
    a = answer.mapError (Fault.within t.label) := by
  cases answer with
  | ok b =>
    cases h
    rfl
  | error f =>
    have hgo : Run.goOn (.error (.fault (f.within t.label))) = .ok a := h
    cases a with
    | ok b => cases Run.goOn_eq_ok.mp hgo
    | error g =>
      obtain ⟨hg, -⟩ := Run.goOn_eq_fault.mp hgo
      cases hg
      rfl

theorem calls_openTarget (t : TableDescriptor) :
    (openTarget s mode t).calls = [.openTarget t] := by
  unfold openTarget
  cases h : (askAbout t (.openTarget t) (s.openTarget t)).value with
  | error halt =>
    rw [Run.bind_of_error h]
    rfl
  | ok answer =>
    rw [Run.bind_of_ok h]
    cases answer with
    | ok target => rfl
    | error f => rfl

theorem calls_planFor {slot : Slot Opened} {c : Call} (hc : c ∈ (planFor s mode slot).calls) :
    ∃ o, slot = .ok o ∧ c = .lookUp o.table := by
  cases slot with
  | error result => exact absurd hc List.not_mem_nil
  | ok o =>
    simp only [planFor] at hc
    cases h : (askAbout o.table (.lookUp o.table) (s.position o.table)).value with
    | error halt =>
      rw [Run.bind_of_error h] at hc
      exact ⟨o, rfl, List.mem_singleton.mp hc⟩
    | ok answer =>
      rw [Run.bind_of_ok h] at hc
      cases answer with
      | ok position => exact ⟨o, rfl, List.mem_singleton.mp hc⟩
      | error f => exact ⟨o, rfl, List.mem_singleton.mp hc⟩

theorem openTarget_value {t : TableDescriptor} {o : Slot Opened}
    (h : (openTarget s mode t).value = .ok o) : o = openedOf s mode t := by
  obtain ⟨answer, hanswer, hrest, -⟩ := Run.bind_inv h
  have ha := askAbout_value hanswer
  unfold openedOf
  cases ho : s.openTarget t with
  | ok target => rw [ho] at ha; subst ha; cases hrest; rfl
  | error f => rw [ho] at ha; subst ha; cases hrest; rfl

theorem planFor_value {slot : Slot Opened} {p : Slot Pending}
    (h : (planFor s mode slot).value = .ok p) : p = plannedOf s mode slot := by
  cases slot with
  | error result => cases h; rfl
  | ok o =>
    obtain ⟨answer, hanswer, hrest, -⟩ := Run.bind_inv h
    have ha := askAbout_value hanswer
    unfold plannedOf
    cases hp : s.position o.table with
    | ok position => rw [hp] at ha; subst ha; cases hrest; simp only [hp]
    | error f => rw [hp] at ha; subst ha; cases hrest; simp only [hp]; rfl

end TableRun

/-! ## What stops a preparation -/

namespace SyncRequest

/-- What goes wrong in a run before its commits: the request has a problem, or an answer is a
fault or a crash. -/
inductive Raises (r : SyncRequest) (s : Services) : Halt → Prop where
  | problem {p : RequestProblem} (h : r.problem? = some p) : Raises r s (.fault p.fault)
  | openTarget {t : TableDescriptor} {f : Fault} (ht : t ∈ r.targets)
      (h : s.openTarget t = .error f) : Raises r s (.fault (f.within t.label))
  | openSource {f : Fault} (h : s.openSource r.source = .error f) : Raises r s (.fault f)
  | lookUp {t : TableDescriptor} {f : Fault} (ht : t ∈ r.targets)
      (h : s.position t = .error f) : Raises r s (.fault (f.within t.label))
  | changes {source : Source} {c : Checkpoint} {halt : Halt}
      (hs : s.openSource r.source = .ok source) (h : source.changesSince c = .error halt) :
      Raises r s halt
  | snapshot {source : Source} {halt : Halt} (hs : s.openSource r.source = .ok source)
      (h : source.snapshot = .error halt) : Raises r s halt

/-- What may stop a run: of all that goes wrong, a fatal fault or a crash. -/
structure MayStop (r : SyncRequest) (s : Services) (halt : Halt) : Prop where
  raised : r.Raises s halt
  fatal : ∀ f, halt = .fault f → f.isFatal = true

variable {r : SyncRequest} {s : Services}

theorem mayStop_of_goOn {α : Type} {answer : Except Halt α}
    (hraise : ∀ halt, answer = .error halt → r.Raises s halt) (halt : Halt)
    (h : Run.goOn answer = .error halt) : r.MayStop s halt := by
  obtain ⟨hanswer, hfatal⟩ := Run.goOn_eq_error h
  exact ⟨hraise halt hanswer, hfatal⟩

theorem guarded_check : Run.Guarded (r.MayStop s) (Run.require r.check) := by
  refine Run.guarded_require fun f hf => ?_
  unfold check at hf
  split at hf
  · rename_i problem hproblem
    cases hf
    exact ⟨.problem hproblem, fun f hf => by cases hf; rfl⟩
  · cases hf

theorem guarded_askAbout {α : Type} {t : TableDescriptor} {call : Call} {answer : Except Fault α}
    (hcall : call.isCommit = false)
    (hraise : ∀ f, answer = .error f → r.Raises s (.fault (f.within t.label))) :
    Run.Guarded (r.MayStop s) (askAbout t call answer) := by
  refine Run.guarded_ask hcall (mayStop_of_goOn fun halt h => ?_)
  cases answer with
  | ok a => cases h
  | error f => cases h; exact hraise f rfl

theorem guarded_openTarget {t : TableDescriptor} (ht : t ∈ r.targets) :
    Run.Guarded (r.MayStop s) (TableRun.openTarget s r.mode t) := by
  refine (guarded_askAbout rfl fun f h => .openTarget ht h).bind fun answer _ => ?_
  cases answer with
  | ok target => exact Run.guarded_pure _
  | error f => exact Run.guarded_pure _

theorem guarded_openSource : Run.Guarded (r.MayStop s) (TableRun.openSource s r.source) := by
  refine Run.guarded_ask rfl (mayStop_of_goOn fun halt h => ?_)
  cases hs : s.openSource r.source with
  | ok source => rw [hs] at h; cases h
  | error f => rw [hs] at h; cases h; exact .openSource hs

theorem guarded_planFor {slot : Slot Opened} (hslot : ∀ o, slot = .ok o → o.table ∈ r.targets) :
    Run.Guarded (r.MayStop s) (planFor s r.mode slot) := by
  cases slot with
  | error result => exact Run.guarded_pure _
  | ok o =>
    refine (guarded_askAbout rfl fun f h => .lookUp (hslot o rfl) h).bind fun answer _ => ?_
    cases answer with
    | ok position => exact Run.guarded_pure _
    | error f => exact Run.guarded_pure _

theorem guarded_readChanges {source : Source} (hs : s.openSource r.source = .ok source)
    (slots : List (Slot Pending)) :
    Run.Guarded (r.MayStop s) (readChanges source r.source slots) := by
  unfold readChanges
  split
  · exact Run.guarded_pure _
  · refine Run.Guarded.bind (Run.guarded_ask rfl (mayStop_of_goOn fun halt h => ?_))
      fun answer _ => ?_
    · exact .changes hs h
    · split
      · exact Run.guarded_pure _
      · exact Run.guarded_pure _
      · exact Run.guarded_pure _

theorem guarded_readSnapshot {source : Source} (hs : s.openSource r.source = .ok source)
    (slots : List (Slot Pending)) :
    Run.Guarded (r.MayStop s) (readSnapshot source r.source slots) := by
  unfold readSnapshot
  split
  · refine Run.Guarded.bind (Run.guarded_ask rfl (mayStop_of_goOn fun halt h => ?_))
      fun _ _ => Run.guarded_pure _
    exact .snapshot hs h
  · exact Run.guarded_pure _

theorem openSource_eq_ok {t : TableDescriptor} {source : Source}
    (h : (TableRun.openSource s t).value = .ok (.ok source)) : s.openSource t = .ok source := by
  have hs := Run.goOn_eq_ok.mp h
  cases ho : s.openSource t with
  | ok other => rw [ho] at hs; cases hs; rfl
  | error f => rw [ho] at hs; cases hs

/-- A source that could not be opened has not stopped the run. -/
theorem openSource_eq_error {t : TableDescriptor} {f : Fault}
    (h : (TableRun.openSource s t).value = .ok (.error f)) :
    s.openSource t = .error f ∧ f.isFatal = false := by
  obtain ⟨hs, hfatal⟩ := Run.goOn_eq_fault.mp h
  cases ho : s.openSource t with
  | ok other => rw [ho] at hs; cases hs
  | error g => rw [ho] at hs; cases hs; exact ⟨rfl, hfatal⟩

theorem guarded_prepareWith {opened : List (Slot Opened)}
    (hopened : opened = r.targets.map (openedOf s r.mode)) {answer : Except Fault Source}
    (hanswer : (TableRun.openSource s r.source).value = .ok answer) :
    Run.Guarded (r.MayStop s) (r.prepareWith s opened answer) := by
  cases answer with
  | error f => exact Run.guarded_pure _
  | ok source =>
    have hs := openSource_eq_ok hanswer
    have hplan : ∀ slot ∈ opened, Run.Guarded (r.MayStop s) (planFor s r.mode slot) := by
      intro slot hslot
      refine guarded_planFor fun o ho => ?_
      rw [hopened] at hslot
      obtain ⟨t, ht, rfl⟩ := List.mem_map.mp hslot
      rw [(openedOf_eq_ok ho).1]
      exact ht
    refine (Run.Guarded.each hplan).bind fun planned _ => ?_
    refine (guarded_readChanges hs planned).bind fun read _ => ?_
    exact (guarded_readSnapshot hs read.1).bind fun _ _ => Run.guarded_pure _

/-- **A preparation commits nothing, and what stops it is a fatal fault or a crash.** -/
theorem guarded_prepare (r : SyncRequest) (s : Services) :
    Run.Guarded (r.MayStop s) (r.prepare s) := by
  refine guarded_check.bind fun _ _ => ?_
  refine (Run.Guarded.each fun t ht => guarded_openTarget ht).bind fun opened hopened => ?_
  refine guarded_openSource.bind fun _ hanswer => ?_
  exact guarded_prepareWith (Run.each_inv (fun _ _ => openTarget_value) hopened).1 hanswer

end SyncRequest

end Lakehouse
