import Lakehouse.Proofs.Table.History
import Lakehouse.Sync.Services

/-!
# Sources and targets that keep their word

What is promised of the two sides of a synchronisation, and the plainest sources and targets that
keep the promise.

* `Source.Follows`: what a source answers is taken from its history.
* `Target.Honest`: a commit that takes effect answers with the position it brought the target to.
* `Source.ofHistory`: a source that answers everything from its history.
* `Target.prompt`, `Target.refusing`: targets that take every commit, or none.
-/

namespace Lakehouse

/-! ## Promises -/

/-- What a source answers is taken from its history: changes are the commits after the position
asked for, and the snapshot reflects the head. It may also fail, or keep no history that far. -/
structure Source.Follows (source : Source) (h : History) : Prop where
  changes : ∀ c cs, source.changesSince c = .ok (.changes cs) → cs = h.after c
  snapshot : ∀ snapshot, source.snapshot = .ok snapshot → h.head? = some snapshot.checkpoint

/-- A commit fails, or it answers with the position of the snapshot or of the last change. -/
structure Target.Honest (target : Target) : Prop where
  replaceAll : ∀ snapshot c, target.replaceAll snapshot = .ok c → c = snapshot.checkpoint
  applyChanges : ∀ cs c, target.applyChanges cs = .ok c → History.head? cs = some c

/-! ## A source -/

/-- The data files that the commits of a history leave. -/
def History.files (h : History) : List DataFile :=
  h.foldl (fun files x => files.filter (fun f => f.path ∉ x.removed) ++ x.added) []

/-- The state of the table after all commits of a history. -/
def History.snapshot? (h : History) : Option Snapshot :=
  h.getLast?.map fun x => ⟨x.table, h.files⟩

/-- The source that answers everything from a history. -/
def Source.ofHistory (h : History) : Source where
  snapshot :=
    match h.snapshot? with
    | some snapshot => .ok snapshot
    | none => .error (.fault ⟨.readException, "the table has no commit"⟩)
  changesSince c := .ok (.changes (h.after c))

theorem Source.ofHistory_follows (h : History) : (Source.ofHistory h).Follows h where
  changes c cs hcs := by
    cases hcs
    rfl
  snapshot snapshot hs := by
    simp only [Source.ofHistory, History.snapshot?] at hs
    unfold History.head?
    cases hlast : h.getLast? with
    | none => rw [hlast] at hs; cases hs
    | some x => rw [hlast] at hs; cases hs; rfl

/-- The source that has lost its history up to a position, and keeps the rest. -/
def Source.since (start : Checkpoint) (h : History) : Source :=
  { Source.ofHistory h with
    changesSince := fun c =>
      if c.before start then .ok .unavailable else .ok (.changes (h.after c)) }

theorem Source.since_follows (start : Checkpoint) (h : History) :
    (Source.since start h).Follows h where
  changes c cs hcs := by
    simp only [Source.since] at hcs
    split at hcs
    · cases hcs
    · cases hcs
      rfl
  snapshot := (Source.ofHistory_follows h).snapshot

/-! ## Targets -/

/-- A target that takes every commit. -/
def Target.prompt : Target where
  replaceAll snapshot := .ok snapshot.checkpoint
  applyChanges cs :=
    match History.head? cs with
    | some c => .ok c
    | none => .error ⟨.updateException, "there is nothing to apply"⟩

theorem Target.prompt_honest : Target.prompt.Honest where
  replaceAll snapshot c hc := by
    cases hc
    rfl
  applyChanges cs c hc := by
    simp only [Target.prompt] at hc
    split at hc
    · rename_i d hd
      cases hc
      exact hd
    · cases hc

/-- A target that takes no commit. -/
def Target.refusing (f : Fault) : Target := ⟨fun _ => .error f, fun _ => .error f⟩

theorem Target.refusing_honest (f : Fault) : (Target.refusing f).Honest where
  replaceAll _ _ hc := by cases hc
  applyChanges _ _ hc := by cases hc

/-! ## Commits told apart by their positions -/

/-- A commit at a position that changes no file. -/
def Change.bare (c : Checkpoint) : Change where
  table := ⟨"", "", none, "", ⟨"", .record, none, false, [], ⟨none, none, none, none, none⟩⟩, [], c⟩
  added := []
  removed := []

/-- The commit made that many seconds after the epoch. -/
def Checkpoint.second (n : Nat) : Checkpoint := ⟨toString n, ⟨n, 0⟩⟩

end Lakehouse
