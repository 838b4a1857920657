import Lakehouse.Proofs.Sync.SharedRead
import Lakehouse.Proofs.Sync.World

/-!
# Every commit reaches every target exactly once

However runs follow one another, in any mode, with any targets and any failures, a target with a
recorded position contains exactly the commits up to that position, in the order of the source.

* `World.untouched_or_at_head`: a run leaves a target as it is, or brings it to the head of the
  history.
* `World.Consistent`: the invariant, and `World.Consistent.after`: every run keeps it.
* `World.reached_exactly_once`: what holds after any number of runs.

About `ConversionController::sync`, which is modelled in `Sync.TableRun`.
-/

namespace Lakehouse

open TableRun

/-! ## What a target is given by a source that keeps its word -/

namespace TableRun

variable {r : SyncRequest} {s : Services} {source : Source}
  {becomes : Slot Pending → Slot Pending} {changeCalls snapshotCalls : List Call} {p : Prepared}
  {h : History}

/-- A snapshot reflects the head. -/
theorem Readied.head_of_snapshot (hr : Readied r s source becomes changeCalls snapshotCalls p)
    (hf : source.Follows h) {plan : Plan} {snapshot : Snapshot}
    (hsupply : supply p.snapshot p.changes plan = .snapshot snapshot) :
    h.head? = some snapshot.checkpoint := by
  have hread := hr.snapshot
  rw [(supply_eq_snapshot hsupply).2] at hread
  exact hf.snapshot snapshot hread.of_snapshot

/-- Changes are the commits after the position that the target has. -/
theorem Readied.after_of_changes (hr : Readied r s source becomes changeCalls snapshotCalls p)
    (hf : source.Follows h) (hinc : h.Increasing) {t : TableDescriptor} (ht : t ∈ r.targets)
    {q : Pending} (hslot : becomes (slotOf s r.mode t) = .ok q) {cs : List Change}
    (hsupply : supply p.snapshot p.changes q.plan = .changes cs) :
    ∃ own, s.position t = .ok (some own) ∧ cs = h.after own := by
  obtain ⟨own, all, hplan, hread, -⟩ := supply_eq_changes hsupply
  rw [hr.supply_eq hf.changes hinc ht hslot hplan hread] at hsupply
  refine ⟨own, ?_, (givenChanges_eq_changes hsupply).symm⟩
  obtain ⟨-, -, position, hposition, hof⟩ := hr.pending hslot
  rw [hplan] at hof
  rcases hof with hof | hof
  · rw [(Plan.of_eq_incremental hof.symm).2] at hposition
    exact hposition
  · cases hof

end TableRun

/-! ## What one run does to a target -/

namespace World

variable {w : World} {h : History} {e : Episode} {basePath format : String}

/-- Every target with a recorded position contains the commits up to that position, which is one of
the history. -/
def Consistent (w : World) (h : History) : Prop :=
  ∀ basePath format c, w.store.get? basePath format = some c →
    h.Has c ∧ w.contents basePath format = h.upTo c

/-- A target whose position and contents are as before. -/
def Untouched (w : World) (e : Episode) (basePath format : String) : Prop :=
  (w.after e).store.get? basePath format = w.store.get? basePath format ∧
    (w.after e).contents basePath format = w.contents basePath format

/-- A target that was brought to the head of the history. -/
def AtHead (w : World) (e : Episode) (basePath format : String) : Prop :=
  ∃ d, e.history.head? = some d ∧ (w.after e).store.get? basePath format = some d ∧
    (w.after e).contents basePath format = e.history

theorem store_after (w : World) (e : Episode) (basePath format : String) :
    (w.after e).store.get? basePath format =
      (w.store.after e.services
        (e.run.calls.filter (Call.commitsTo basePath format))).get? basePath format :=
  CheckpointStore.get?_after rfl e.run.calls

theorem contents_after (w : World) (e : Episode) (basePath format : String) :
    (w.after e).contents basePath format =
      w.contents.after e.services e.history
        (e.run.calls.filter (Call.commitsTo basePath format)) basePath format :=
  Contents.after_filter rfl e.run.calls

theorem untouched_of_nil (hnil : e.run.calls.filter (Call.commitsTo basePath format) = []) :
    Untouched w e basePath format := by
  refine ⟨?_, ?_⟩
  · rw [store_after, hnil]
    rfl
  · rw [contents_after, hnil]
    rfl

/-- A target that is rebuilt. -/
theorem untouched_or_at_head_of_snapshot (he : e.Faithful w.store) {q : Pending}
    (hat : q.table.isAt basePath format = true)
    (ho : e.services.openTarget q.table = .ok q.target) {snapshot : Snapshot}
    (hhead : e.history.head? = some snapshot.checkpoint)
    (hcalls : e.run.calls.filter (Call.commitsTo basePath format) =
      commitCalls q (.snapshot snapshot)) :
    Untouched w e basePath format ∨ AtHead w e basePath format := by
  have hcontents := contents_after w e basePath format
  have hstore := store_after w e basePath format
  rw [hcalls] at hcontents hstore
  rw [Contents.after_rebuilding _ ho] at hcontents
  simp only [commitCalls] at hstore
  cases hanswer : q.target.replaceAll snapshot with
  | error f =>
    rw [hanswer] at hcontents hstore
    exact Or.inl ⟨hstore, hcontents⟩
  | ok c =>
    obtain rfl := (he.targets q.table q.target ho).replaceAll snapshot c hanswer
    rw [hanswer] at hcontents hstore
    refine Or.inr ⟨snapshot.checkpoint, hhead, hstore.trans ?_, hcontents.trans ?_⟩
    · exact get?_recordCalls_ok hat (he.records _ _ _)
    · simp only
      rw [Contents.alter_of_isAt _ hat, History.upTo_head he.increasing hhead]

/-- A target that is given the commits after its position. -/
theorem untouched_or_at_head_of_changes (he : e.Faithful w.store)
    (hw : w.Consistent e.history) {q : Pending} (hat : q.table.isAt basePath format = true)
    (ho : e.services.openTarget q.table = .ok q.target) {own : Checkpoint}
    (hown : w.store.get? basePath format = some own)
    (hcalls : e.run.calls.filter (Call.commitsTo basePath format) =
      commitCalls q (.changes (e.history.after own))) :
    Untouched w e basePath format ∨ AtHead w e basePath format := by
  have hcontents := contents_after w e basePath format
  have hstore := store_after w e basePath format
  rw [hcalls] at hcontents hstore
  rw [Contents.after_changing _ ho] at hcontents
  simp only [commitCalls] at hstore
  cases hanswer : q.target.applyChanges (e.history.after own) with
  | error f =>
    rw [hanswer] at hcontents hstore
    exact Or.inl ⟨hstore, hcontents⟩
  | ok d =>
    have hhead := (he.targets q.table q.target ho).applyChanges _ d hanswer
    rw [hanswer] at hcontents hstore
    refine Or.inr ⟨d, History.head_of_head_after he.increasing hhead, hstore.trans ?_,
      hcontents.trans ?_⟩
    · exact get?_recordCalls_ok hat (he.records _ _ _)
    · -- what was there ends where the new commits begin
      simp only
      rw [Contents.alter_of_isAt _ hat, (hw _ _ _ hown).2,
        History.upTo_append_after he.increasing]

/-- A target of a run that was prepared. -/
theorem untouched_or_at_head_of_prepared (he : e.Faithful w.store) (hw : w.Consistent e.history)
    {p : Prepared} (hp : (e.request.prepare e.services).value = .ok (.ok p)) {t : TableDescriptor}
    (ht : t ∈ e.request.targets) (hat : t.isAt basePath format = true) :
    Untouched w e basePath format ∨ AtHead w e basePath format := by
  obtain ⟨source, becomes, changeCalls, snapshotCalls, hr⟩ := SyncRequest.prepare_inv hp
  have hfollows : source.Follows e.history := he.source source hr.opened
  have hcalls := hr.calls_at hp e.schedule ht hat
  cases hslot : becomes (slotOf e.services e.request.mode t) with
  | error result =>
    rw [hslot] at hcalls
    exact Or.inl (untouched_of_nil hcalls)
  | ok q =>
    obtain ⟨rfl, ho, -⟩ := hr.pending hslot
    rw [hslot] at hcalls
    simp only [callsOf] at hcalls
    cases hsupply : supply p.snapshot p.changes q.plan with
    | snapshot snapshot =>
      rw [hsupply] at hcalls
      have hhead := hr.head_of_snapshot hfollows hsupply
      exact untouched_or_at_head_of_snapshot he hat ho hhead hcalls
    | changes cs =>
      obtain ⟨own, hown, rfl⟩ := hr.after_of_changes hfollows he.increasing ht hslot hsupply
      rw [hsupply] at hcalls
      refine untouched_or_at_head_of_changes he hw hat ho ?_ hcalls
      rw [CheckpointStore.get?_congr w.store hat]
      exact (he.looksUp _ _ _ hown).symm
    | upToDate c =>
      rw [hsupply] at hcalls
      exact Or.inl (untouched_of_nil hcalls)
    | unread f =>
      rw [hsupply] at hcalls
      exact Or.inl (untouched_of_nil hcalls)

/-- **A run leaves a target as it is, or brings it to the head of the history.** -/
theorem untouched_or_at_head (he : e.Faithful w.store) (hw : w.Consistent e.history)
    (basePath format : String) : Untouched w e basePath format ∨ AtHead w e basePath format := by
  rcases e.request.run_eq_or_prepared e.services with ⟨ended, hrun⟩ | ⟨p, hp⟩
  · refine Or.inl (untouched_of_nil ?_)
    rw [Episode.run, hrun]
    exact filter_of_quiet (SyncRequest.guarded_prepare _ _).quiet
  · rcases e.request.isAt_or_elsewhere basePath format with ⟨i, t, ht, hat⟩ | hnone
    · exact untouched_or_at_head_of_prepared he hw hp (List.mem_of_getElem? ht) hat
    · obtain ⟨source, becomes, changeCalls, snapshotCalls, hr⟩ := SyncRequest.prepare_inv hp
      exact Or.inl (untouched_of_nil (hr.calls_elsewhere hp e.schedule hnone))

/-! ## Any number of runs -/

/-- A history that grows is as good. -/
theorem Consistent.grow (hw : w.Consistent h) {h' : History} (hgrow : h <+: h')
    (hinc : h'.Increasing) : w.Consistent h' := by
  intro basePath format c hc
  obtain ⟨hhas, hcontents⟩ := hw basePath format c hc
  exact ⟨hhas.of_prefix hgrow, hcontents.trans (History.upTo_of_prefix hinc hgrow hhas).symm⟩

/-- **Every run keeps the invariant.** -/
theorem Consistent.after (hw : w.Consistent h) (hgrow : h <+: e.history)
    (he : e.Faithful w.store) : (w.after e).Consistent e.history := by
  have hw' := hw.grow hgrow he.increasing
  intro basePath format c hc
  rcases untouched_or_at_head he hw' basePath format with
    ⟨hstore, hcontents⟩ | ⟨d, hd, hstore, hcontents⟩
  · rw [hstore] at hc
    rw [hcontents]
    exact hw' basePath format c hc
  · rw [hstore] at hc
    cases hc
    exact ⟨History.has_of_head hd, hcontents.trans (History.upTo_head he.increasing hd).symm⟩

/-- No run moves a recorded position back. -/
theorem Consistent.forward (hw : w.Consistent h) (hgrow : h <+: e.history)
    (he : e.Faithful w.store) {c : Checkpoint} (hc : w.store.get? basePath format = some c) :
    ∃ d, (w.after e).store.get? basePath format = some d ∧ c.upTo d = true := by
  have hw' := hw.grow hgrow he.increasing
  rcases untouched_or_at_head he hw' basePath format with ⟨hstore, -⟩ | ⟨d, hd, hstore, -⟩
  · exact ⟨c, hstore.trans hc, Checkpoint.upTo_refl c⟩
  · exact ⟨d, hstore, History.upTo_head_of_has he.increasing (hw' basePath format c hc).1 hd⟩

theorem Reached.increasing (hw : Reached w h) : h.Increasing := by
  cases hw with
  | start contents => exact List.Pairwise.nil
  | run _ _ he => exact he.increasing

theorem Reached.consistent (hw : Reached w h) : w.Consistent h := by
  induction hw with
  | start contents => exact fun _ _ _ hc => by cases hc
  | run _ hgrow he ih => exact ih.after hgrow he

/-- **Exactly once.** After any number of runs, in any modes, with any targets, and whatever has
failed in them or stopped them, a target with a recorded position contains exactly the commits of
the source up to that position, each once and in the order of the source; and another run may move
the position forward, but never back. -/
theorem reached_exactly_once (hw : Reached w h) {basePath format : String} {c : Checkpoint}
    (hc : w.store.get? basePath format = some c) :
    (h.Has c ∧ w.contents basePath format = h.upTo c ∧ (w.contents basePath format).Nodup) ∧
    ∀ e : Episode, h <+: e.history → e.Faithful w.store →
      ∃ d, (w.after e).store.get? basePath format = some d ∧ c.upTo d = true := by
  obtain ⟨hhas, hcontents⟩ := hw.consistent basePath format c hc
  refine ⟨⟨hhas, hcontents, ?_⟩, fun e hgrow he => hw.consistent.forward hgrow he hc⟩
  rw [hcontents]
  exact (hw.increasing.upTo c).nodup

/-- Two runs, the second after another commit. One target takes them, the other refuses. -/
theorem reached_exactly_once_twice :
    let early : History := [.bare (.second 10), .bare (.second 20)]
    let late : History := [.bare (.second 10), .bare (.second 20), .bare (.second 30)]
    let request (mode : SyncMode) : SyncRequest := ⟨.plain "trips" "/data/trips" "HUDI",
      [.plain "trips" "/data/trips" "DELTA", .plain "trips" "/data/trips" "ICEBERG"], mode⟩
    let services (h : History) := Services.withStore (fun _ => .ok (.since (.second 15) h))
      (fun t => .ok (if t.format = "DELTA" then .prompt else .refusing ⟨.updateException, "full"⟩))
    let first : Episode := ⟨request .full, services early .empty, .inOrder, early⟩
    let once := (World.start fun _ _ => []).after first
    let second : Episode := ⟨request .incremental, services late once.store, .inOrder, late⟩
    let twice := once.after second
    (Reached once early ∧ once.contents "/data/trips" "DELTA" = early) ∧
      (Reached twice late ∧ twice.contents "/data/trips" "DELTA" = late) ∧
      ∃ d, twice.store.get? "/data/trips" "DELTA" = some d ∧
        (Checkpoint.second 20).upTo d = true := by
  intro early late request services first once second twice
  have hlate : late.Increasing := by
    have hpair : late.Pairwise fun x y => x.checkpoint.before y.checkpoint = true := by
      decide +kernel
    exact hpair
  have hgrow : early <+: late := ⟨[.bare (.second 30)], rfl⟩
  have hearly : early.Increasing := List.Pairwise.sublist hgrow.sublist hlate
  have hsource : ∀ (h : History) (t : TableDescriptor) (source : Source),
      Except.ok (Source.since (.second 15) h) = (.ok source : Except Fault Source) →
        source.Follows h := by
    intro h t source hs
    cases hs
    exact Source.since_follows (.second 15) h
  have htargets : ∀ (t : TableDescriptor) (target : Target),
      Except.ok (if t.format = "DELTA" then .prompt else .refusing ⟨.updateException, "full"⟩) =
        (.ok target : Except Fault Target) → target.Honest := by
    intro t target ht
    cases ht
    split
    · exact Target.prompt_honest
    · exact Target.refusing_honest _
  have hfirst : Reached once early := .run (.start _) List.nil_prefix
    (Episode.faithful_withStore hearly (hsource early) htargets _ _ _)
  have hfaithful : second.Faithful once.store :=
    Episode.faithful_withStore hlate (hsource late) htargets _ _ _
  have hsecond : Reached twice late := .run hfirst hgrow hfaithful
  have honce : once.store.get? "/data/trips" "DELTA" = some (.second 20) := by decide +kernel
  have htwice : twice.store.get? "/data/trips" "DELTA" = some (.second 30) := by decide +kernel
  obtain ⟨⟨-, hheld, -⟩, hforward⟩ := reached_exactly_once hfirst honce
  refine ⟨⟨hfirst, hheld.trans ?_⟩, ⟨hsecond, ?_⟩, hforward second hgrow hfaithful⟩
  · decide +kernel
  · rw [(reached_exactly_once hsecond htwice).1.2.1]
    decide +kernel

end World

end Lakehouse
