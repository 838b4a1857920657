import Lakehouse.Proofs.Sync.Collaborators
import Lakehouse.Proofs.Sync.Recording

/-!
# What runs leave behind

Runs follow one another, and the history of the source may grow in between. They leave positions in
the checkpoint store and commits in the targets. A target is known by its base path and its format,
as in the checkpoint store.

* `Contents.after`: what targets contain after some calls. A commit either takes effect as a whole
  or has none.
* `Episode`, `Episode.Faithful`: a run with everything around it, and what is promised of that.
* `World.Reached`: the worlds that runs lead to, from one in which nothing is recorded.
* `Contents.after_filter`: what a target contains is told from the calls that touch it.
-/

namespace Lakehouse

/-! ## What targets contain -/

/-- The commits that each target contains, by base path and format. -/
def Contents := String → String → History

/-- Whether a target takes a commit: it can be opened, and the commit does not fail. -/
def Services.takes (s : Services) (t : TableDescriptor)
    (commit : Target → Except Fault Checkpoint) : Bool :=
  match s.openTarget t with
  | .ok target => (commit target).toBool
  | .error _ => false

theorem Services.takes_eq {s : Services} {t : TableDescriptor} {target : Target}
    (h : s.openTarget t = .ok target) (commit : Target → Except Fault Checkpoint) :
    s.takes t commit = (commit target).toBool := by
  unfold takes
  rw [h]

namespace Contents

/-- The contents with those of one target changed. -/
def alter (held : Contents) (t : TableDescriptor) (change : History → History) : Contents :=
  fun basePath format =>
    if t.isAt basePath format = true then change (held basePath format) else held basePath format

/-- What targets contain after one call, where the history of the source is `h`. A snapshot has all
commits up to its position. -/
def afterCall (s : Services) (h : History) (held : Contents) : Call → Contents
  | .replaceAll t snapshot =>
    if s.takes t (·.replaceAll snapshot) = true
    then held.alter t fun _ => h.upTo snapshot.checkpoint else held
  | .applyChanges t cs =>
    if s.takes t (·.applyChanges cs) = true then held.alter t (· ++ cs) else held
  | _ => held

/-- What targets contain after some calls. -/
def after (s : Services) (h : History) (held : Contents) (calls : List Call) : Contents :=
  calls.foldl (afterCall s h) held

variable {s : Services} {h : History} {basePath format : String}

theorem alter_of_isAt (held : Contents) {t : TableDescriptor}
    (hat : t.isAt basePath format = true) (change : History → History) :
    held.alter t change basePath format = change (held basePath format) := by
  unfold alter
  rw [if_pos hat]

theorem alter_of_not (held : Contents) {t : TableDescriptor}
    (hat : t.isAt basePath format = false) (change : History → History) :
    held.alter t change basePath format = held basePath format := by
  unfold alter
  rw [if_neg (Bool.eq_false_iff.mp hat)]

theorem alter_congr {held held' : Contents} (heq : held basePath format = held' basePath format)
    (t : TableDescriptor) (change : History → History) :
    held.alter t change basePath format = held'.alter t change basePath format := by
  unfold alter
  rw [heq]

/-- What a target contains after one call that does not touch it. -/
theorem afterCall_of_not (held : Contents) {c : Call}
    (hc : c.commitsTo basePath format = false) :
    held.afterCall s h c basePath format = held basePath format := by
  cases c with
  | replaceAll t snapshot =>
    simp only [afterCall]
    split
    · exact alter_of_not held hc _
    · rfl
  | applyChanges t cs =>
    simp only [afterCall]
    split
    · exact alter_of_not held hc _
    · rfl
  | openTarget | openSource | lookUp | changesSince | currentSnapshot | record => rfl

/-- One call treats alike two targets with the same contents. -/
theorem afterCall_congr {held held' : Contents}
    (heq : held basePath format = held' basePath format) (c : Call) :
    held.afterCall s h c basePath format = held'.afterCall s h c basePath format := by
  cases c with
  | replaceAll t snapshot =>
    simp only [afterCall]
    split
    · exact alter_congr heq t _
    · exact heq
  | applyChanges t cs =>
    simp only [afterCall]
    split
    · exact alter_congr heq t _
    · exact heq
  | openTarget | openSource | lookUp | changesSince | currentSnapshot | record => exact heq

/-- **What a target contains after some calls is told from the calls that touch it.** -/
theorem after_filter {held held' : Contents}
    (heq : held basePath format = held' basePath format) (calls : List Call) :
    held.after s h calls basePath format =
      held'.after s h (calls.filter (Call.commitsTo basePath format)) basePath format :=
  view_foldl_filter (fun held : Contents => held basePath format)
    (fun c heq => afterCall_congr heq c) (fun held _ hc => afterCall_of_not held hc) heq calls

/-- What targets contain after one of them was to be rebuilt. -/
theorem after_rebuilding (held : Contents) {q : TableRun.Pending}
    (ho : s.openTarget q.table = .ok q.target) (snapshot : Snapshot) :
    held.after s h (TableRun.commitCalls q (.snapshot snapshot)) =
      match q.target.replaceAll snapshot with
      | .ok _ => held.alter q.table fun _ => h.upTo snapshot.checkpoint
      | .error _ => held := by
  simp only [TableRun.commitCalls, after, List.foldl_cons, afterCall, Services.takes_eq ho]
  cases q.target.replaceAll snapshot with
  | ok c => rfl
  | error f => rfl

/-- What targets contain after one of them was to take some changes. -/
theorem after_changing (held : Contents) {q : TableRun.Pending}
    (ho : s.openTarget q.table = .ok q.target) (cs : List Change) :
    held.after s h (TableRun.commitCalls q (.changes cs)) =
      match q.target.applyChanges cs with
      | .ok _ => held.alter q.table (· ++ cs)
      | .error _ => held := by
  simp only [TableRun.commitCalls, after, List.foldl_cons, afterCall, Services.takes_eq ho]
  cases q.target.applyChanges cs with
  | ok c => rfl
  | error f => rfl

end Contents

/-! ## Runs one after the other -/

/-- A run, with all that it calls on and the history of the source at the time. -/
structure Episode where
  request : SyncRequest
  services : Services
  schedule : Schedule
  history : History

namespace Episode

/-- The run of an episode. -/
def run (e : Episode) : Run TableResult := e.request.run e.services e.schedule

/-- What is promised of an episode that finds the store as it is: the history strictly increases,
the source and the targets keep their word where they do not fail, positions are looked up in that
store, and recording them does not fail. -/
structure Faithful (e : Episode) (store : CheckpointStore) : Prop where
  increasing : e.history.Increasing
  source : ∀ source, e.services.openSource e.request.source = .ok source →
    source.Follows e.history
  targets : ∀ t target, e.services.openTarget t = .ok target → target.Honest
  looksUp : e.services.LooksUp store
  records : ∀ basePath format c, e.services.record basePath format c = .ok ()

/-- Services that keep positions in a store are faithful if the source and the targets are. -/
theorem faithful_withStore {h : History} (hinc : h.Increasing)
    {openSource : TableDescriptor → Except Fault Source}
    {openTarget : TableDescriptor → Except Fault Target}
    (hsource : ∀ t source, openSource t = .ok source → source.Follows h)
    (htargets : ∀ t target, openTarget t = .ok target → target.Honest)
    (request : SyncRequest) (schedule : Schedule) (store : CheckpointStore) :
    Faithful ⟨request, .withStore openSource openTarget store, schedule, h⟩ store where
  increasing := hinc
  source := hsource request.source
  targets := htargets
  looksUp := Services.withStore_looksUp openSource openTarget store
  records _ _ _ := rfl

end Episode

/-- The positions that are recorded, and what the targets contain. -/
structure World where
  store : CheckpointStore
  contents : Contents

namespace World

/-- Nothing is recorded, and nothing is known to be in any target. -/
def start (contents : Contents) : World := ⟨.empty, contents⟩

/-- The world after an episode. -/
def after (w : World) (e : Episode) : World :=
  ⟨w.store.after e.services e.run.calls, w.contents.after e.services e.history e.run.calls⟩

/-- The worlds that faithful runs lead to, each with the history that the last run has seen. The
history only ever grows. -/
inductive Reached : World → History → Prop where
  | start (contents : Contents) : Reached (.start contents) []
  | run {w : World} {h : History} (hw : Reached w h) {e : Episode} (hgrow : h <+: e.history)
      (he : e.Faithful w.store) : Reached (w.after e) e.history

end World

end Lakehouse
