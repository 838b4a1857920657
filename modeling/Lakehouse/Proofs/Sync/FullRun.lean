import Lakehouse.Proofs.Sync.OwnRead

/-!
# Runs in full mode and the positions of the targets

In full mode every target is rebuilt, whatever its position. The positions are looked up all the
same, so a run does not depend on what they are, but it depends on whether they can be looked up: a
look-up that fails fails its target, and a fatal one stops the run.

* `Services.lookingUp`: the same services with another checkpoint store behind them.
* `SyncRequest.prepare_lookingUp`: look-ups matter to a run by the plans made of them.
* `SyncRequest.prepare_eq_of_fails_alike`: look-ups that fail alike are not told apart.
* `SyncRequest.full_run_ignores_positions`: two runs in full mode that differ in the store.
* `SyncRequest.full_run_needs_positions`: a target that is not rebuilt because of its look-up.

About `ConversionController::sync`, which is modelled in `Sync.TableRun`.
-/

namespace Lakehouse

open TableRun

/-- The same services with other answers to look-ups. -/
def Services.lookingUp (s : Services)
    (lookUp : String → String → Except Fault (Option Checkpoint)) : Services :=
  { s with lookUp }

namespace SyncRequest

/-- For each target of a request the one look-up fails exactly if the other does, and in the same
way. -/
def FailsAlike (r : SyncRequest) (s s' : Services) : Prop :=
  ∀ t ∈ r.targets, ∀ f, s.position t = .error f ↔ s'.position t = .error f

variable {r : SyncRequest} {s s' : Services} {schedule : Schedule} {result result' : TableResult}
  {lookUp : String → String → Except Fault (Option Checkpoint)} {source : Source}
  {t : TableDescriptor} {target : Target} {f : Fault} {i : Nat}

/-! ## Look-ups that fail alike -/

/-- In full mode a target is planned for by whether its look-up failed. -/
theorem planFor_full {o : Opened}
    (h : ∀ f, s.position o.table = .error f ↔ s'.position o.table = .error f) :
    planFor s .full (.ok o) = planFor s' .full (.ok o) := by
  simp only [planFor]
  cases hp : s.position o.table with
  | error f =>
    rw [(h f).mp hp]
  | ok position =>
    cases hp' : s'.position o.table with
    | error f =>
      rw [(h f).mpr hp'] at hp
      cases hp
    | ok position' => rfl

/-- **Up to its commits a run is the same** with other look-ups if the plans are. -/
theorem prepare_lookingUp
    (hplans : ∀ opened source, opened = r.targets.map (openedOf s r.mode) →
      (∀ c ∈ (Run.each (planFor s r.mode) opened).calls, c ∈ (r.prepare s).calls) →
      s.openSource r.source = .ok source →
      Run.each (planFor (s.lookingUp lookUp) r.mode) opened =
        Run.each (planFor s r.mode) opened) :
    r.prepare (s.lookingUp lookUp) = r.prepare s := by
  have hprepare : r.prepare s = Run.require r.check >>= fun _ =>
      Run.each (openTarget s r.mode) r.targets >>= fun opened =>
        TableRun.openSource s r.source >>= r.prepareWith s opened := rfl
  show (Run.require r.check >>= fun _ => Run.each (openTarget s r.mode) r.targets >>= fun opened =>
    TableRun.openSource s r.source >>= r.prepareWith (s.lookingUp lookUp) opened) = _
  refine Run.bind_congr fun _ hcheck => Run.bind_congr fun opened hopened =>
    Run.bind_congr fun answer hanswer => ?_
  cases answer with
  | error f => rfl
  | ok source =>
    simp only [prepareWith]
    rw [hplans opened source (Run.each_inv (fun _ _ => openTarget_value) hopened).1 ?_
      (openSource_eq_ok hanswer)]
    intro c hc
    rw [hprepare]
    exact Run.mem_calls_bind_next hcheck <| Run.mem_calls_bind_next hopened <|
      Run.mem_calls_bind_next hanswer <| Run.mem_calls_bind hc

/-- In full mode a preparation is the same if the look-ups fail alike. -/
theorem prepare_eq_of_fails_alike (hmode : r.mode = .full)
    (halike : r.FailsAlike s (s.lookingUp lookUp)) :
    r.prepare (s.lookingUp lookUp) = r.prepare s := by
  refine prepare_lookingUp fun opened source hopened _ _ => ?_
  refine Run.each_congr fun slot hslot => ?_
  rw [hopened] at hslot
  obtain ⟨t, ht, rfl⟩ := List.mem_map.mp hslot
  cases ho : openedOf s r.mode t with
  | error result => rfl
  | ok o =>
    obtain ⟨rfl, -⟩ := openedOf_eq_ok ho
    rw [hmode]
    exact (planFor_full (halike o.table ht)).symm

/-! ## Two runs -/

/-- A target whose look-up succeeds in two runs in full mode ends alike in both. -/
theorem ended_full_alike (hmode : r.mode = .full) (hrun : (r.run s schedule).value = .ok result)
    (hrun' : (r.run (s.lookingUp lookUp) schedule).value = .ok result')
    (ht : r.targets[i]? = some t) {position position' : Option Checkpoint}
    (hposition : s.position t = .ok position)
    (hposition' : (s.lookingUp lookUp).position t = .ok position') :
    result'.targets[i]? = result.targets[i]? ∧
      (r.run (s.lookingUp lookUp) schedule).calls.filter (Call.commitsTo t.basePath t.format) =
        (r.run s schedule).calls.filter (Call.commitsTo t.basePath t.format) := by
  cases hs : s.openSource r.source with
  | error f =>
    obtain ⟨rfl, hquiet⟩ := ended_without_source hs hrun
    obtain ⟨rfl, hquiet'⟩ := ended_without_source (s := s.lookingUp lookUp) hs hrun'
    exact ⟨rfl, (hquiet' _ _).trans (hquiet _ _).symm⟩
  | ok source =>
    cases ho : s.openTarget t with
    | error f =>
      obtain ⟨hended, hquiet⟩ := ended_early hs hrun ht (slotOf_of_unopened ho)
      obtain ⟨hended', hquiet'⟩ :=
        ended_early (s := s.lookingUp lookUp) hs hrun' ht (slotOf_of_unopened ho)
      exact ⟨hended'.trans hended.symm, hquiet'.trans hquiet.symm⟩
    | ok target =>
      obtain ⟨ended, hended, hby⟩ := ends_by_read hs hrun ht ho hposition
      obtain ⟨ended', hended', hby'⟩ :=
        ends_by_read (s := s.lookingUp lookUp) hs hrun' ht ho hposition'
      have hends := (hby.rebuilt (.inl hmode)).2
      have hends' := (hby'.rebuilt (.inl hmode)).2
      obtain ⟨rfl, hcalls⟩ := hends.unique ⟨hends'.read, hends'.failed⟩
      exact ⟨hended'.trans hended.symm, hcalls⟩

/-- **A run in full mode depends on whether positions can be looked up, not on what they are.** If
the look-ups of the targets fail alike, the runs are the same, with all their calls. Whatever else
the store answers, in two runs that come to results a target whose look-up succeeds in both ends
alike in both and takes the same commits, and one whose look-up fails takes no commit and fails. -/
theorem full_run_ignores_positions (hmode : r.mode = .full) (s : Services)
    (lookUp : String → String → Except Fault (Option Checkpoint)) (schedule : Schedule) :
    let s' := s.lookingUp lookUp
    (r.FailsAlike s s' → r.run s' schedule = r.run s schedule) ∧
    ∀ result result', (r.run s schedule).value = .ok result →
      (r.run s' schedule).value = .ok result' →
      ∀ (i : Nat) (t : TableDescriptor), r.targets[i]? = some t →
        (∀ position position', s.position t = .ok position → s'.position t = .ok position' →
          result'.targets[i]? = result.targets[i]? ∧
            (r.run s' schedule).calls.filter (Call.commitsTo t.basePath t.format) =
              (r.run s schedule).calls.filter (Call.commitsTo t.basePath t.format)) ∧
        ∀ source target f, s.openSource r.source = .ok source → s.openTarget t = .ok target →
          s'.position t = .error f → result'.targets[i]? = some (.failed t .full f) ∧
            (r.run s' schedule).calls.filter (Call.commitsTo t.basePath t.format) = [] := by
  intro s'
  constructor
  · intro halike
    rw [run_eq_prepare, run_eq_prepare, prepare_eq_of_fails_alike hmode halike]
    rfl
  · intro result result' hrun hrun' i t ht
    refine ⟨fun position position' hposition hposition' => ?_, fun source target f hs ho hf => ?_⟩
    · exact ended_full_alike hmode hrun hrun' ht hposition hposition'
    · rw [← hmode]
      exact ended_early (s := s') hs hrun' ht (slotOf_of_not_looked_up ho hf)

/-- Positions that are lost make no difference to a run in full mode. -/
theorem full_run_ignores_positions_lost :
    let s := Services.withStore
      (fun _ => .ok (.ofHistory [.bare (.second 10), .bare (.second 20)]))
      (fun _ => .ok .prompt) (CheckpointStore.empty.put "/data/trips" "DELTA" (.second 10))
    let r : SyncRequest := ⟨.plain "trips" "/data/trips" "HUDI",
      [.plain "trips" "/data/trips" "DELTA", .plain "trips" "/data/trips" "ICEBERG"], .full⟩
    r.run (s.lookingUp fun _ _ => .ok none) .inOrder = r.run s .inOrder ∧
      (r.run s .inOrder).value.toOption.map (fun result =>
        result.targets.map TargetResult.checkpoint?) =
          some [some (.second 20), some (.second 20)] := by
  intro s r
  have halike : r.FailsAlike s (s.lookingUp fun _ _ => .ok none) := by
    intro t _ f
    constructor
    · intro h
      cases h
    · intro h
      cases h
  refine ⟨(full_run_ignores_positions rfl s _ .inOrder).1 halike, ?_⟩
  decide +kernel

/-- **A run in full mode still needs the positions**: where one cannot be looked up, the target that
would have been rebuilt fails, and the source is not even asked. -/
theorem full_run_needs_positions :
    let down : Fault := ⟨.readException, "the store cannot be reached"⟩
    let s := Services.withStore
      (fun _ => .ok (.ofHistory [.bare (.second 10), .bare (.second 20)]))
      (fun _ => .ok .prompt) .empty
    let s' := s.lookingUp fun _ _ => .error down
    let delta := TableDescriptor.plain "trips" "/data/trips" "DELTA"
    let r : SyncRequest := ⟨.plain "trips" "/data/trips" "HUDI", [delta], .full⟩
    (r.run s .inOrder).value.toOption.map TableResult.targets =
        some [.of delta .full (.succeeded (.second 20))] ∧
      (r.run s .inOrder).calls.filter Call.isRead = [.currentSnapshot r.source] ∧
      (r.run s' .inOrder).value.toOption.map TableResult.targets =
        some [.failed delta .full down] ∧
      (r.run s' .inOrder).calls.filter Call.isRead = [] := by
  decide +kernel

end SyncRequest

end Lakehouse
