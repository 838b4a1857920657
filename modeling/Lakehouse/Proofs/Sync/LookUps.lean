import Lakehouse.Proofs.Sync.Cause
import Lakehouse.Proofs.Sync.FullRun

/-!
# What a run looks up

A run looks up the positions of its own targets, before any commit, and nothing but the answers it
was given there makes it depend on the checkpoint store.

* `SyncRequest.calls_of_run`: the calls of a run are those of its preparation and then commits.
* `SyncRequest.lookUp_mem_targets`: only targets of the request are looked up.
* `SyncRequest.run_lookingUp`: look-ups that are answered alike where they are made lead to the same
  run.
* `Services.over`: the same services with a checkpoint store behind them.
-/

namespace Lakehouse

open TableRun

namespace SyncRequest

variable {r : SyncRequest} {s : Services} {schedule : Schedule}
  {lookUp : String → String → Except Fault (Option Checkpoint)} {t : TableDescriptor}

/-- The calls of a run are those of its preparation, which commit nothing, and then commits. -/
theorem calls_of_run (r : SyncRequest) (s : Services) (schedule : Schedule) :
    ∃ commits, (r.run s schedule).calls = (r.prepare s).calls ++ commits ∧
      ∀ c ∈ commits, c.isCommit = true := by
  rcases r.run_eq_or_prepared s with ⟨ended, hrun⟩ | ⟨p, hp⟩
  · refine ⟨[], ?_, nofun⟩
    rw [hrun, List.append_nil]
  · refine ⟨_, congrArg Run.calls (run_of_prepared hp schedule), fun c hc => ?_⟩
    obtain ⟨w, -, hw⟩ := List.mem_flatMap.mp hc
    exact isCommit_of_mem_callsOf hw

/-- After a commit a run makes commits only. -/
theorem commits_last (r : SyncRequest) (s : Services) (schedule : Schedule) :
    (r.run s schedule).calls.Pairwise fun c d => c.isCommit = true → d.isCommit = true := by
  obtain ⟨commits, hcalls, hcommits⟩ := calls_of_run r s schedule
  rw [hcalls, List.pairwise_append]
  refine ⟨?_, ?_, fun c _ d hd _ => hcommits d hd⟩
  · refine List.pairwise_of_forall_mem_list fun c hc d _ hcommit => ?_
    rw [(guarded_prepare r s).quiet c hc] at hcommit
    cases hcommit
  · exact List.pairwise_of_forall_mem_list fun c _ d hd _ => hcommits d hd

theorem plan_looks_up_targets (r : SyncRequest) (s : Services) :
    ∀ c ∈ (r.plan s).calls, ∀ t, c = .lookUp t → t ∈ r.targets := by
  unfold plan
  refine Run.forall_calls_bind (fun c hc => nomatch hc) fun _ _ => ?_
  refine Run.forall_calls_bind (Run.forall_calls_each fun t _ c hc => ?_) fun opened hopened => ?_
  · rw [calls_openTarget, List.mem_singleton] at hc
    rw [hc]
    exact nofun
  refine Run.forall_calls_bind (fun c hc => ?_) fun answer _ => ?_
  · rw [List.mem_singleton.mp hc]
    exact nofun
  cases answer with
  | error f => exact fun c hc => nomatch hc
  | ok source =>
    refine Run.forall_calls_bind (Run.forall_calls_each fun slot hslot c hc => ?_)
      fun _ _ c hc => nomatch hc
    obtain ⟨o, rfl, rfl⟩ := calls_planFor hc
    rw [(Run.each_inv (fun _ _ => openTarget_value) hopened).1] at hslot
    obtain ⟨t, ht, ho⟩ := List.mem_map.mp hslot
    rintro u ⟨⟩
    rw [(openedOf_eq_ok ho).1]
    exact ht

theorem read_looks_up_nothing (x : Except (List TargetResult) Planned) :
    ∀ c ∈ (r.read x).calls, ∀ t, c ≠ .lookUp t := by
  cases x with
  | error results => exact fun c hc => nomatch hc
  | ok planned =>
    refine Run.forall_calls_bind (fun c hc => ?_) fun read _ =>
      Run.forall_calls_bind (fun c hc => ?_) fun _ _ c hc => nomatch hc
    · rw [calls_readChanges, Option.mem_toList, Option.map_eq_some_iff] at hc
      obtain ⟨since, -, rfl⟩ := hc
      exact nofun
    · rw [calls_readSnapshot] at hc
      split at hc
      · rw [List.mem_singleton.mp hc]
        exact nofun
      · cases hc

/-- **A run looks up the positions of targets of its request only.** -/
theorem lookUp_mem_targets (h : .lookUp t ∈ (r.run s schedule).calls) : t ∈ r.targets := by
  obtain ⟨commits, hcalls, hcommits⟩ := calls_of_run r s schedule
  rw [hcalls, prepare_eq_plan] at h
  rcases List.mem_append.mp h with h | h
  · exact Run.forall_calls_bind (plan_looks_up_targets r s)
      (fun x _ c hc t hct => absurd hct (read_looks_up_nothing x c hc t)) _ h t rfl
  · cases hcommits _ h

/-- **Look-ups that are answered alike where they are made lead to the same run.** -/
theorem run_lookingUp (schedule : Schedule)
    (h : ∀ t, .lookUp t ∈ (r.run s schedule).calls →
      (s.lookingUp lookUp).position t = s.position t) :
    r.run (s.lookingUp lookUp) schedule = r.run s schedule := by
  have hprepare : r.prepare (s.lookingUp lookUp) = r.prepare s := by
    refine prepare_lookingUp fun opened source _ hcalls _ => ?_
    refine (Run.each_congr_of_calls hcalls fun slot _ hslot => ?_).symm
    cases slot with
    | error result => rfl
    | ok o =>
      have hasked : .lookUp o.table ∈ (r.run s schedule).calls := by
        rw [run_eq_prepare]
        exact Run.mem_calls_bind (hslot _ lookUp_mem_calls)
      simp only [planFor]
      rw [h o.table hasked]
  rw [run_eq_prepare, run_eq_prepare, hprepare]
  rfl

end SyncRequest

/-! ## Services with a checkpoint store behind them -/

/-- The same services, where a look-up that does not fail is answered out of a store. -/
def Services.over (base : Services) (store : CheckpointStore) : Services :=
  base.lookingUp fun basePath format => do
    let _ ← base.lookUp basePath format
    return store.get? basePath format

theorem Services.position_over (base : Services) {store store' : CheckpointStore}
    {t : TableDescriptor}
    (h : store.get? t.basePath t.format = store'.get? t.basePath t.format) :
    (base.over store).position t = (base.over store').position t :=
  congrArg (fun position => do
    let _ ← base.lookUp t.basePath t.format
    return position) h

end Lakehouse
