import Lakehouse.Proofs.Sync.OwnRead

/-!
# What a target failed of

A run makes up no failures. Where a target fails, a call that concerns it was answered with a fault,
and this fault is the one that the target is reported with, under the target's label.

* `Services.FailsWith`: the calls that are answered with a fault.
* `Call.concerns`: the targets that a call matters to.
* `SyncRequest.failure_has_cause`: every failure was an answer.
-/

namespace Lakehouse

/-- A call is answered with a fault. -/
inductive Services.FailsWith (s : Services) : Call → Fault → Prop where
  | openTarget {t : TableDescriptor} {f : Fault} (h : s.openTarget t = .error f) :
      FailsWith s (.openTarget t) f
  | openSource {t : TableDescriptor} {f : Fault} (h : s.openSource t = .error f) :
      FailsWith s (.openSource t) f
  | lookUp {t : TableDescriptor} {f : Fault} (h : s.position t = .error f) :
      FailsWith s (.lookUp t) f
  | changesSince {t : TableDescriptor} {source : Source} {c : Checkpoint} {f : Fault}
      (hs : s.openSource t = .ok source) (h : source.changesSince c = .error (.fault f)) :
      FailsWith s (.changesSince t c) f
  | currentSnapshot {t : TableDescriptor} {source : Source} {f : Fault}
      (hs : s.openSource t = .ok source) (h : source.snapshot = .error (.fault f)) :
      FailsWith s (.currentSnapshot t) f
  | replaceAll {t : TableDescriptor} {target : Target} {snapshot : Snapshot} {f : Fault}
      (ho : s.openTarget t = .ok target) (h : target.replaceAll snapshot = .error f) :
      FailsWith s (.replaceAll t snapshot) f
  | applyChanges {t : TableDescriptor} {target : Target} {cs : List Change} {f : Fault}
      (ho : s.openTarget t = .ok target) (h : target.applyChanges cs = .error f) :
      FailsWith s (.applyChanges t cs) f
  | record {t : TableDescriptor} {c : Checkpoint} {f : Fault} (h : s.recorded t c = .error f) :
      FailsWith s (.record t c) f

/-- Whether a call matters to a target: it is about that target, or about the source. -/
def Call.concerns (t : TableDescriptor) : Call → Bool
  | .openSource _ | .changesSince .. | .currentSnapshot _ => true
  | .openTarget u | .lookUp u | .replaceAll u _ | .applyChanges u _ | .record u _ => u = t

open TableRun

/-- Among some calls there is one that concerns a target and was answered with a fault, and the
target is reported with that fault. -/
def SyncRequest.HasCause (s : Services) (calls : List Call) (t : TableDescriptor) (g : Fault) :
    Prop :=
  ∃ call ∈ calls, call.concerns t = true ∧ ∃ f, s.FailsWith call f ∧ g = f.within t.label

namespace TableRun

variable {s : Services} {p : Pending} {g : Fault}

/-! ## Commits -/

/-- A commit fails at the target, or where its position is recorded. -/
theorem failed_of_recordedAt {committed : Except Fault Checkpoint}
    (h : (finish p (recordedAt s p committed)).outcome = .failed g) :
    ∃ f, g = f.within p.table.label ∧
      (committed = .error f ∨ ∃ c, committed = .ok c ∧ s.recorded p.table c = .error f) := by
  cases committed with
  | error f =>
    cases h
    exact ⟨f, rfl, .inl rfl⟩
  | ok c =>
    have hat : recordedAt s p (.ok c) = s.recorded p.table c >>= fun _ => .ok c := rfl
    rw [hat] at h
    cases hr : s.recorded p.table c with
    | error f =>
      rw [hr] at h
      cases h
      exact ⟨f, rfl, .inr ⟨c, rfl, hr⟩⟩
    | ok u =>
      rw [hr] at h
      cases h

/-- A target that was given something to commit fails of one of the calls this takes. -/
theorem cause_of_commit (ho : s.openTarget p.table = .ok p.target) {supply : Supply}
    (hread : ∀ f, supply ≠ .unread f)
    (h : (finish p (reached s p supply)).outcome = .failed g) :
    SyncRequest.HasCause s (commitCalls p supply) p.table g := by
  cases supply with
  | unread f => exact absurd rfl (hread f)
  | upToDate c => cases h
  | snapshot snapshot =>
    obtain ⟨f, rfl, hf | ⟨c, hc, hf⟩⟩ := failed_of_recordedAt h
    · exact ⟨_, List.mem_cons_self, decide_eq_true rfl, f, .replaceAll ho hf, rfl⟩
    · refine ⟨.record p.table c, ?_, decide_eq_true rfl, f, .record hf, rfl⟩
      simp [commitCalls, recordCalls, hc]
  | changes cs =>
    obtain ⟨f, rfl, hf | ⟨c, hc, hf⟩⟩ := failed_of_recordedAt h
    · exact ⟨_, List.mem_cons_self, decide_eq_true rfl, f, .applyChanges ho hf, rfl⟩
    · refine ⟨.record p.table c, ?_, decide_eq_true rfl, f, .record hf, rfl⟩
      simp [commitCalls, recordCalls, hc]

/-- A failure that is the fault of a commit was caused by a call of the run. -/
theorem hasCause_of_filter {calls : List Call} {t : TableDescriptor} {q : Call → Bool}
    (h : SyncRequest.HasCause s (calls.filter q) t g) : SyncRequest.HasCause s calls t g := by
  obtain ⟨call, hcall, hrest⟩ := h
  exact ⟨call, (List.mem_filter.mp hcall).1, hrest⟩

theorem givenChanges_ne_unread (own : Checkpoint) (cs : List Change) (f : Fault) :
    givenChanges own cs ≠ .unread f := by
  cases cs with
  | nil => exact nofun
  | cons x rest => exact nofun

/-- A target that came to the commits fails of its read, or of its commit. -/
theorem EndsByRead.cause {r : SyncRequest} {source : Source} {calls : List Call}
    {t : TableDescriptor} {target : Target} {position : Option Checkpoint} {ended : TargetResult}
    (h : EndsByRead r s source calls t target position ended)
    (hs : s.openSource r.source = .ok source) (ho : s.openTarget t = .ok target)
    (hfailed : ended.outcome = .failed g) : SyncRequest.HasCause s calls t g := by
  by_cases hrebuilt : r.IsRebuilt source calls position
  · obtain ⟨hasked, hends⟩ := h.rebuilt hrebuilt
    cases hsnapshot : source.snapshot with
    | ok snapshot =>
      obtain ⟨hcommits, rfl⟩ := hends.read snapshot hsnapshot
      refine hasCause_of_filter (q := Call.commitsTo t.basePath t.format) ?_
      rw [hcommits]
      exact cause_of_commit (p := ⟨t, target, .full⟩) ho nofun hfailed
    | error halt =>
      obtain ⟨f, rfl, -, rfl⟩ := hends.failed halt hsnapshot
      cases hfailed
      exact ⟨_, hasked, rfl, f, .currentSnapshot hs hsnapshot, rfl⟩
  · obtain ⟨own, since, -, hasked, hends⟩ := h.goesOn hrebuilt
    have hmem : .changesSince r.source since ∈ calls.filter Call.readsChanges := by
      rw [hasked]
      exact List.mem_singleton_self _
    cases hchanges : source.changesSince since with
    | ok answer =>
      cases answer with
      | changes cs =>
        obtain ⟨hcommits, rfl⟩ := hends.read cs hchanges
        refine hasCause_of_filter (q := Call.commitsTo t.basePath t.format) ?_
        rw [hcommits]
        exact cause_of_commit (p := ⟨t, target, .incremental own⟩) ho
          (givenChanges_ne_unread own _) hfailed
      | unavailable =>
        exact absurd (.inr (.inr ⟨since, (List.mem_filter.mp hmem).1, hchanges⟩)) hrebuilt
    | error halt =>
      obtain ⟨f, rfl, -, rfl⟩ := hends.failed halt hchanges
      cases hfailed
      exact ⟨_, (List.mem_filter.mp hmem).1, rfl, f, .changesSince hs hchanges, rfl⟩

end TableRun

namespace SyncRequest

variable {r : SyncRequest} {s : Services} {schedule : Schedule} {result : TableResult}
  {source : Source} {t : TableDescriptor} {g : Fault}

/-! ## Calls before the reads -/

theorem lookUp_mem_calls {mode : SyncMode} {o : Opened} :
    .lookUp o.table ∈ (planFor s mode (.ok o)).calls :=
  Run.mem_calls_bind (List.mem_singleton_self _)

/-- A preparation that was not stopped has opened all targets and the source, and with a source it
has looked up the positions of all targets that were opened. -/
theorem calls_of_prepare {x : Except (List TargetResult) Prepared}
    (h : (r.prepare s).value = .ok x) :
    (∀ t ∈ r.targets, .openTarget t ∈ (r.prepare s).calls) ∧
      .openSource r.source ∈ (r.prepare s).calls ∧
      ∀ source, s.openSource r.source = .ok source → ∀ t ∈ r.targets, ∀ target,
        s.openTarget t = .ok target → .lookUp t ∈ (r.prepare s).calls := by
  obtain ⟨_, -, h, hcalls⟩ := Run.bind_inv h
  obtain ⟨opened, hopened, h, hcalls'⟩ := Run.bind_inv h
  obtain ⟨answer, hanswer, h, hcalls''⟩ := Run.bind_inv h
  obtain ⟨rfl, hasked⟩ := Run.each_inv (fun t o => openTarget_value) hopened
  have hall : (r.prepare s).calls = (r.targets.flatMap fun t => (openTarget s r.mode t).calls) ++
      (.openSource r.source ::
        (r.prepareWith s (r.targets.map (openedOf s r.mode)) answer).calls) := by
    show (Run.require r.check >>= _).calls = _
    rw [hcalls, hcalls', hcalls'', hasked]
    rfl
  rw [hall]
  refine ⟨fun t ht => ?_, ?_, fun source hs t ht target ho => ?_⟩
  · refine List.mem_append_left _ (List.mem_flatMap.mpr ⟨t, ht, ?_⟩)
    rw [calls_openTarget]
    exact List.mem_singleton_self _
  · exact List.mem_append_right _ List.mem_cons_self
  · refine List.mem_append_right _ (List.mem_cons_of_mem _ ?_)
    cases answer with
    | error f =>
      obtain ⟨hf, -⟩ := openSource_eq_error hanswer
      rw [hs] at hf
      cases hf
    | ok source' =>
      obtain ⟨planned, hplanned, -⟩ := Run.bind_inv h
      refine Run.mem_calls_bind ?_
      rw [(Run.each_inv (fun _ _ => planFor_value) hplanned).2, List.mem_flatMap]
      refine ⟨.ok ⟨t, target⟩, List.mem_map.mpr ⟨t, ht, ?_⟩, lookUp_mem_calls⟩
      unfold openedOf
      rw [ho]

/-! ## Causes -/

/-- **Every failure in the result of a run was the answer to a call of the run**, about the target
that failed or about the source. -/
theorem failure_has_cause (hrun : (r.run s schedule).value = .ok result) {i : Nat}
    (ht : r.targets[i]? = some t) {ended : TargetResult} (hended : result.targets[i]? = some ended)
    (hfailed : ended.outcome = .failed g) : HasCause s (r.run s schedule).calls t g := by
  have hmem : t ∈ r.targets := List.mem_of_getElem? ht
  obtain ⟨x, hx, -⟩ := Run.bind_inv (run_eq_prepare r s schedule ▸ hrun)
  obtain ⟨hopens, hopensSource, hlooks⟩ := calls_of_prepare hx
  have hsub : ∀ call ∈ (r.prepare s).calls, call ∈ (r.run s schedule).calls := by
    intro call hcall
    rw [run_eq_prepare]
    exact Run.mem_calls_bind hcall
  -- a target that could not be opened fails of that, with a source or without one
  have hunopened : ∀ f, s.openTarget t = .error f → ended = .failed t r.mode f →
      HasCause s (r.run s schedule).calls t g := by
    rintro f ho rfl
    cases hfailed
    exact ⟨_, hsub _ (hopens t hmem), decide_eq_true rfl, f, .openTarget ho, rfl⟩
  cases hs : s.openSource r.source with
  | error f =>
    obtain ⟨rfl, -⟩ := ended_without_source hs hrun
    have hget : (r.targets.map fun t => TargetResult.failed t r.mode (faultWithout s f t))[i]? =
        some ended := hended
    rw [List.getElem?_map, ht, Option.map_some, Option.some.injEq] at hget
    unfold faultWithout at hget
    cases ho : s.openTarget t with
    | error e =>
      rw [ho] at hget
      exact hunopened e ho hget.symm
    | ok target =>
      rw [ho] at hget
      subst hget
      cases hfailed
      exact ⟨_, hsub _ hopensSource, rfl, f, .openSource hs, rfl⟩
  | ok source =>
    cases ho : s.openTarget t with
    | error f =>
      obtain ⟨hget, -⟩ := ended_early hs hrun ht (slotOf_of_unopened ho)
      rw [hget] at hended
      exact hunopened f ho (Option.some.inj hended).symm
    | ok target =>
      cases hposition : s.position t with
      | error f =>
        obtain ⟨hget, -⟩ := ended_early hs hrun ht (slotOf_of_not_looked_up ho hposition)
        rw [hget] at hended
        cases hended
        cases hfailed
        exact ⟨_, hsub _ (hlooks source hs t hmem target ho), decide_eq_true rfl, f,
          .lookUp hposition, rfl⟩
      | ok position =>
        obtain ⟨other, hother, hby⟩ := ends_by_read hs hrun ht ho hposition
        rw [hended] at hother
        cases hother
        exact hby.cause hs ho hfailed

end SyncRequest

end Lakehouse
