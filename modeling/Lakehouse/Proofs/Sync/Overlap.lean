import Lakehouse.Proofs.Sync.LookUps
import Lakehouse.Proofs.Sync.Recording
import Lakehouse.Sync.Batch

/-!
# Runs that overlap

The tables of a batch are run at the same time. The calls of their runs mix in any way, a commit of
one may come between the look-ups and the commits of another, and the runs finish in any order.

* `Overlap`: the runs of a batch, with all their calls as they were made.
* `Overlap.report_eq`: the reports are in the order of the entries, however the runs finish.
* `Overlap.SharesStore`: the runs have nothing in common but the checkpoint store.
* `Apart`: no two requests have a target in common.
* `Overlap.run_of_apart`: runs that share nothing but the store, for requests without a common
  target, are the same as by themselves.
* `Overlap.ends_alike_of_apart`: they end alike in every overlap.
-/

namespace Lakehouse

/-! ## Calls with their makers -/

/-- The calls made for one entry, among those for all. -/
def callsFor (i : Nat) (calls : List (Nat × Call)) : List Call :=
  (calls.filter fun w => w.1 == i).map Prod.snd

theorem mem_callsFor {i : Nat} {calls : List (Nat × Call)} {c : Call} :
    c ∈ callsFor i calls ↔ (i, c) ∈ calls := by
  unfold callsFor
  rw [List.mem_map]
  constructor
  · rintro ⟨⟨j, d⟩, hw, rfl⟩
    obtain ⟨hmem, hj⟩ := List.mem_filter.mp hw
    rw [← beq_iff_eq.mp hj]
    exact hmem
  · exact fun h => ⟨(i, c), List.mem_filter.mpr ⟨h, beq_self_eq_true i⟩, rfl⟩

theorem callsFor_append (i : Nat) (calls calls' : List (Nat × Call)) :
    callsFor i (calls ++ calls') = callsFor i calls ++ callsFor i calls' := by
  unfold callsFor
  rw [List.filter_append, List.map_append]

theorem callsFor_self (i : Nat) (calls : List Call) :
    callsFor i (calls.map (i, ·)) = calls := by
  unfold callsFor
  rw [List.filter_eq_self.mpr, List.map_map]
  · exact List.map_id calls
  · intro w hw
    obtain ⟨c, -, rfl⟩ := List.mem_map.mp hw
    exact beq_self_eq_true i

theorem callsFor_of_ne {i j : Nat} (hne : j ≠ i) (calls : List Call) :
    callsFor i (calls.map (j, ·)) = [] := by
  unfold callsFor
  rw [List.filter_eq_nil_iff.mpr, List.map_nil]
  intro w hw
  obtain ⟨c, -, rfl⟩ := List.mem_map.mp hw
  rw [beq_iff_eq]
  exact hne

theorem count_callsFor (i : Nat) (c : Call) (calls : List (Nat × Call)) :
    (callsFor i calls).count c = calls.count (i, c) := by
  unfold callsFor
  induction calls with
  | nil => rfl
  | cons w calls ih =>
    obtain ⟨j, d⟩ := w
    by_cases hj : j = i
    · subst hj
      have hkept : ((j, d) :: calls).filter (fun w => w.1 == j) =
          (j, d) :: calls.filter fun w => w.1 == j := List.filter_cons_of_pos (beq_self_eq_true j)
      rw [hkept, List.map_cons, List.count_cons, List.count_cons, ih]
      simp
    · have hleft : ((j, d) :: calls).filter (fun w => w.1 == i) =
          calls.filter fun w => w.1 == i := List.filter_cons_of_neg (by simpa using hj)
      rw [hleft, ih, List.count_cons_of_ne]
      simp [hj]

/-- Calls are the same up to their order if those for each entry are. -/
theorem perm_of_callsFor {calls calls' : List (Nat × Call)}
    (h : ∀ i, (callsFor i calls).Perm (callsFor i calls')) : calls.Perm calls' := by
  rw [List.perm_iff_count]
  rintro ⟨i, c⟩
  rw [← count_callsFor, ← count_callsFor]
  exact (h i).count_eq c

/-- Of calls made entry by entry, those for one entry. -/
theorem callsFor_work {α : Type} (schedule : Schedule) {items : List α} {x : α} {i : Nat}
    (hx : items[i]? = some x) (g : α × Nat → List Call) :
    callsFor i ((schedule.work items).flatMap fun w => (g w).map (w.2, ·)) = g (x, i) := by
  have hparts : callsFor i ((schedule.work items).flatMap fun w => (g w).map (w.2, ·)) =
      (schedule.work items).flatMap fun w => callsFor i ((g w).map (w.2, ·)) := by
    unfold callsFor
    rw [List.filter_flatMap, List.map_flatMap]
  rw [hparts, schedule.flatMap_work hx fun y j _ hne => callsFor_of_ne hne _, callsFor_self]

/-! ## The runs of a batch -/

namespace Batch

/-- The calls made for an entry. -/
def entryCalls (s : Services) (targets : Schedule) : BatchEntry → List Call
  | .error _ => []
  | .ok r => (r.run s targets).calls

/-- The report on an entry. -/
def entryReport (s : Services) (targets : Schedule) : BatchEntry → TableReport
  | .error report => report
  | .ok r => .of r.source (r.run s targets).value

/-- The calls made for an entry, in the order in which they were made: all calls of its run, where
the targets may be committed at the same time, but not before the run has come to that. -/
structure Makes (s : Services) (targets : Schedule) (e : BatchEntry) (calls : List Call) :
    Prop where
  perm : calls.Perm (entryCalls s targets e)
  commitsLast : calls.Pairwise fun c d => c.isCommit = true → d.isCommit = true

/-- A run makes its calls. -/
theorem makes_entryCalls (s : Services) (targets : Schedule) (e : BatchEntry) :
    Makes s targets e (entryCalls s targets e) := by
  refine ⟨List.Perm.refl _, ?_⟩
  cases e with
  | error report => exact List.Pairwise.nil
  | ok r => exact r.commits_last s targets

end Batch

open Batch

/-- The runs of a batch in any overlap. -/
structure Overlap (entries : List BatchEntry) where
  /-- What the run of each entry calls on. -/
  services : Nat → Services
  /-- The order in which the run of each entry comes to its targets. -/
  targets : Nat → Schedule
  /-- The order in which the runs finish. -/
  finished : Schedule
  /-- The calls of all runs, in the order in which they were made, with the entries they were made
  for. -/
  calls : List (Nat × Call)
  made : ∀ i e, entries[i]? = some e → Makes (services i) (targets i) e (callsFor i calls)
  entered : ∀ w ∈ calls, w.1 < entries.length

/-- No two requests have a target of one base path and one format, in any case. -/
def Apart (entries : List BatchEntry) : Prop :=
  ∀ (i j : Nat) (r q : SyncRequest), i ≠ j → entries[i]? = some (.ok r) →
    entries[j]? = some (.ok q) → ∀ t ∈ r.targets, ∀ u ∈ q.targets,
      u.isAt t.basePath t.format = false

/-- One target is that of one request. -/
theorem Apart.eq_of_isAt {entries : List BatchEntry} (hapart : Apart entries) {i j : Nat}
    {r q : SyncRequest} (hr : entries[i]? = some (.ok r)) (hq : entries[j]? = some (.ok q))
    {t u : TableDescriptor} (ht : t ∈ r.targets) (hu : u ∈ q.targets) {basePath format : String}
    (htat : t.isAt basePath format = true) (huat : u.isAt basePath format = true) : i = j := by
  by_contra hne
  obtain ⟨rfl, hformat⟩ := TableDescriptor.isAt_iff.mp htat
  obtain ⟨hpath, hformat'⟩ := TableDescriptor.isAt_iff.mp huat
  have hat : u.isAt t.basePath t.format = true :=
    TableDescriptor.isAt_iff.mpr ⟨hpath, hformat'.trans hformat.symm⟩
  rw [hapart i j r q hne hr hq t ht u hu] at hat
  cases hat

namespace Overlap

variable {entries : List BatchEntry}

/-- What is reported of an entry. -/
def reportOn (o : Overlap entries) (w : BatchEntry × Nat) : TableReport :=
  entryReport (o.services w.2) (o.targets w.2) w.1

/-- The report on a batch, from the single reports as they come in. -/
def report (o : Overlap entries) : Report :=
  ⟨placed entries.length ((o.finished.work entries).map fun w => (w.2, o.reportOn w))⟩

/-- The checkpoint store after all runs. -/
def storeAfter (o : Overlap entries) (base : Services) (store : CheckpointStore) :
    CheckpointStore :=
  store.after base (o.calls.map Prod.snd)

/-- Every look-up among some calls is answered out of the store as the calls before it have left
it. -/
def Served (base : Services) (services : Nat → Services) (store : CheckpointStore)
    (calls : List (Nat × Call)) : Prop :=
  ∀ front i t back, calls = front ++ (i, .lookUp t) :: back →
    (services i).position t = (base.over (store.after base (front.map Prod.snd))).position t

/-- The runs share nothing but the checkpoint store: whatever else they call on answers them as it
answers a run by itself, and positions are looked up in the store as it is at the time. -/
structure SharesStore (o : Overlap entries) (base : Services) (store : CheckpointStore) :
    Prop where
  others : ∀ i, ∃ lookUp, o.services i = base.lookingUp lookUp
  served : Served base o.services store o.calls

variable {o : Overlap entries} {base : Services} {store : CheckpointStore} {i : Nat}
  {r : SyncRequest} {t : TableDescriptor} {c : Call}

/-- **However the runs finish, the reports are in the order of the entries.** -/
theorem report_eq (o : Overlap entries) : o.report = ⟨entries.zipIdx.map o.reportOn⟩ :=
  congrArg Report.mk (o.finished.placed_work_zipIdx entries o.reportOn)

/-- A call is one of the run of a request. -/
theorem request_of_mem (hc : (i, c) ∈ o.calls) :
    ∃ r, entries[i]? = some (.ok r) ∧ c ∈ (r.run (o.services i) (o.targets i)).calls := by
  obtain ⟨e, he⟩ : ∃ e, entries[i]? = some e := ⟨_, List.getElem?_eq_getElem (o.entered _ hc)⟩
  have hmem := (o.made i e he).perm.mem_iff.mp (mem_callsFor.mpr hc)
  cases e with
  | error report => cases hmem
  | ok r => exact ⟨r, he, hmem⟩

theorem callsFor_eq_nil (he : entries[i]? = none) : callsFor i o.calls = [] := by
  rw [List.eq_nil_iff_forall_not_mem]
  intro c hc
  exact absurd (o.entered _ (mem_callsFor.mp hc)) (Nat.not_lt.mpr (List.getElem?_eq_none_iff.mp he))

/-- A call that touches a target is one of a run with this target. -/
theorem target_of_commit {basePath format : String} (hc : (i, c) ∈ o.calls)
    (hto : c.commitsTo basePath format = true) :
    ∃ r, entries[i]? = some (.ok r) ∧ ∃ t ∈ r.targets, t.isAt basePath format = true := by
  obtain ⟨r, hr, hmem⟩ := o.request_of_mem hc
  refine ⟨r, hr, ?_⟩
  rcases r.isAt_or_elsewhere basePath format with ⟨j, t, ht, hat⟩ | hnone
  · exact ⟨t, List.mem_of_getElem? ht, hat⟩
  · have hnil := r.run_calls_elsewhere (o.services i) (o.targets i) hnone
    exact absurd hto (List.filter_eq_nil_iff.mp hnil c hmem)

/-! ## Requests without a common target -/

/-- Where no two requests have a target in common, a target is looked up before anything has touched
it. -/
theorem untouched_before_lookUp (hapart : Apart entries) {front back : List (Nat × Call)}
    (hcalls : o.calls = front ++ (i, .lookUp t) :: back) :
    (store.after base (front.map Prod.snd)).get? t.basePath t.format =
      store.get? t.basePath t.format := by
  have hlook : (i, .lookUp t) ∈ o.calls := by
    rw [hcalls]
    exact List.mem_append_right _ List.mem_cons_self
  obtain ⟨r, hr, hmem⟩ := o.request_of_mem hlook
  have ht : t ∈ r.targets := SyncRequest.lookUp_mem_targets hmem
  have hnone : (front.map Prod.snd).filter (Call.commitsTo t.basePath t.format) = [] := by
    rw [List.filter_eq_nil_iff]
    intro c hc hto
    obtain ⟨⟨j, d⟩, hd, rfl⟩ := List.mem_map.mp hc
    by_cases hj : j = i
    · -- a run looks up before it commits
      subst hj
      have hown := (o.made j _ hr).commitsLast
      rw [hcalls, callsFor_append, List.pairwise_append] at hown
      have hlast := hown.2.2 d (mem_callsFor.mpr hd) (.lookUp t)
        (mem_callsFor.mpr List.mem_cons_self) (Call.isCommit_of_commitsTo hto)
      cases hlast
    · have hmem : (j, d) ∈ o.calls := by
        rw [hcalls]
        exact List.mem_append_left _ hd
      obtain ⟨q, hq, u, hu, hat⟩ := o.target_of_commit hmem hto
      exact hj (hapart.eq_of_isAt hq hr hu ht hat t.isAt_self)
  rw [CheckpointStore.get?_after rfl, hnone]
  rfl

/-- **Where no two requests have a target in common, each run is the one it would be by itself.** -/
theorem run_of_apart (hapart : Apart entries) (hshares : o.SharesStore base store)
    (hr : entries[i]? = some (.ok r)) :
    r.run (o.services i) (o.targets i) = r.run (base.over store) (o.targets i) := by
  obtain ⟨lookUp, hservices⟩ := hshares.others i
  have hover : base.over store = (o.services i).lookingUp (base.over store).lookUp := by
    rw [hservices]
    rfl
  rw [hover]
  refine (SyncRequest.run_lookingUp (o.targets i) fun t ht => ?_).symm
  have hmem : (i, .lookUp t) ∈ o.calls :=
    mem_callsFor.mp ((o.made i _ hr).perm.mem_iff.mpr ht)
  obtain ⟨front, back, hcalls⟩ := List.append_of_mem hmem
  rw [← hover, hshares.served front i t back hcalls]
  exact (base.position_over (untouched_before_lookUp hapart hcalls)).symm

theorem report_of_apart (hapart : Apart entries) (hshares : o.SharesStore base store) :
    o.report = ⟨entries.map (entryReport (base.over store) .inOrder)⟩ := by
  rw [o.report_eq, ← map_zipIdx_fst entries]
  refine congrArg Report.mk (List.map_congr_left ?_)
  rintro ⟨e, i⟩ hw
  cases e with
  | error report => rfl
  | ok r =>
    have hr := List.mk_mem_zipIdx_iff_getElem?.mp hw
    show TableReport.of r.source (r.run (o.services i) (o.targets i)).value = _
    rw [run_of_apart hapart hshares hr, SyncRequest.run_value_eq r _ _ .inOrder]
    rfl

/-- The calls made for an entry are those of its run by itself, up to their order. -/
theorem callsFor_of_apart (hapart : Apart entries) (hshares : o.SharesStore base store)
    {e : BatchEntry} (he : entries[i]? = some e) :
    (callsFor i o.calls).Perm (entryCalls (base.over store) .inOrder e) := by
  refine (o.made i e he).perm.trans ?_
  cases e with
  | error report => exact List.Perm.refl _
  | ok r =>
    show (r.run (o.services i) (o.targets i)).calls.Perm _
    rw [run_of_apart hapart hshares he]
    exact r.run_calls_perm _ _ _

/-- No two calls record different positions of one target. -/
theorem agree_of_apart (hapart : Apart entries) :
    ∀ x ∈ o.calls.map Prod.snd, ∀ y ∈ o.calls.map Prod.snd, CheckpointStore.Agree x y := by
  intro x hx y hy
  obtain ⟨⟨i, x'⟩, hi, rfl⟩ := List.mem_map.mp hx
  obtain ⟨⟨j, y'⟩, hj, rfl⟩ := List.mem_map.mp hy
  by_cases heq : i = j
  · subst heq
    obtain ⟨r, hr, hxr⟩ := o.request_of_mem hi
    obtain ⟨q, hq, hyq⟩ := o.request_of_mem hj
    cases hr.symm.trans hq
    exact r.run_calls_agree _ _ x' hxr y' hyq
  · refine CheckpointStore.agree_of_records fun t c u d hxt hyu hat => ?_
    cases hxt
    cases hyu
    obtain ⟨r, hr, t', ht', htat⟩ := o.target_of_commit hi hat
    obtain ⟨q, hq, u', hu', huat⟩ := o.target_of_commit hj u.isAt_self
    exact absurd (hapart.eq_of_isAt hr hq ht' hu' htat huat) heq

/-- The calls are the same in every overlap, up to their order. -/
theorem calls_perm (hapart : Apart entries) {o o' : Overlap entries}
    (hshares : o.SharesStore base store) (hshares' : o'.SharesStore base store) :
    o.calls.Perm o'.calls := by
  refine perm_of_callsFor fun i => ?_
  cases he : entries[i]? with
  | some e =>
    exact (callsFor_of_apart hapart hshares he).trans (callsFor_of_apart hapart hshares' he).symm
  | none => rw [o.callsFor_eq_nil he, o'.callsFor_eq_nil he]

/-- **Where no two requests have a target in common, all overlaps have the same report and leave the
same store.** -/
theorem ends_alike_of_apart (hapart : Apart entries) {o o' : Overlap entries}
    (hshares : o.SharesStore base store) (hshares' : o'.SharesStore base store) :
    o.report = o'.report ∧ o.storeAfter base store = o'.storeAfter base store := by
  constructor
  · rw [report_of_apart hapart hshares, report_of_apart hapart hshares']
  · exact CheckpointStore.after_perm store ((calls_perm hapart hshares hshares').map Prod.snd)
      (agree_of_apart hapart)

end Overlap

end Lakehouse
