import Lakehouse.Sync.Outcome
import Lakehouse.Sync.Run
import Lakehouse.Sync.Schedule
import Lakehouse.Sync.TurningPoint
import Lakehouse.Text.Blank

/-!
# The run of a table

A table is synchronised in four phases.

* Opening: the request is checked, and its targets and then its source are opened.
* Planning: a target with a position goes on from there if that was asked for, and any other target
  is rebuilt.
* Reading: the changes since the oldest position are read once for all targets that go on, and the
  snapshot once for all that are rebuilt. If the changes are no longer kept, every target is
  rebuilt.
* Committing: each target gets the changes after its own position, or the snapshot, and its new
  position is recorded. The targets are committed in any order.

A fatal fault in the first three phases stops the run; any other fault fails the target it concerns,
and a fault of the source fails every target that needed the answer. No failure of a commit concerns
another target.

* `SyncRequest.run` — the run of a request.

Model of `ConversionController::sync`, with `sync_table`, `read_changes`, `commit`,
`commit_and_record`, `validate_request` and `input_for`. Left out: logging, how long things took,
and how many targets are committed at once. That calls which overlap come to the same is part of
`Proofs.Sync.Isolation`.
-/

namespace Lakehouse

/-! ## Checking a request -/

/-- Why a request cannot be run. -/
inductive RequestProblem where
  | incomplete (role : String) (table : TableDescriptor)
  | targetIsSource (source target : TableDescriptor)
  | repeatedFormat (source target : TableDescriptor)
  deriving DecidableEq

namespace RequestProblem

/-- The words for a problem. -/
def message : RequestProblem → String
  | incomplete role t =>
    s!"{role} table needs a base path, name and format, " ++
      s!"got '{t.basePath}' / '{t.name}' / '{t.format}'"
  | targetIsSource source target =>
    s!"table '{source.name}' at {source.basePath}: " ++
      s!"target format {target.format} is the source format"
  | repeatedFormat source target =>
    s!"table '{source.name}' at {source.basePath}: target format {target.format} is listed twice"

/-- A problem of a request is an invalid configuration. -/
def fault (p : RequestProblem) : Fault := ⟨.invalidConfiguration, p.message⟩

end RequestProblem

/-- Whether a table has a base path, a name and a format. -/
def TableDescriptor.isComplete (t : TableDescriptor) : Bool :=
  !Text.isAllBlank t.basePath && !Text.isAllBlank t.name && !Text.isAllBlank t.format

namespace SyncRequest

/-- The first problem among targets, where the formats of `seen` are taken already. -/
def targetProblem? (source : TableDescriptor) (seen : List String) :
    List TableDescriptor → Option RequestProblem
  | [] => none
  | t :: rest =>
    let format := Text.upper t.format
    if !t.isComplete then some (.incomplete "target" t)
    else if format = Text.upper source.format then some (.targetIsSource source t)
    else if format ∈ seen then some (.repeatedFormat source t)
    else targetProblem? source (format :: seen) rest

/-- The first problem of a request. -/
def problem? (r : SyncRequest) : Option RequestProblem :=
  if !r.source.isComplete then some (.incomplete "source" r.source)
  else targetProblem? r.source [] r.targets

/-- Checks that the tables are complete and that no two of them have one format. -/
def check (r : SyncRequest) : Except Fault Unit :=
  match r.problem? with
  | some p => .error p.fault
  | none => .ok ()

end SyncRequest

namespace TableRun

/-- A target on its way through a run: it has failed already, or it still has something to do. -/
abbrev Slot (α : Type) := Except TargetResult α

/-- A call about a target. Its faults say which target they concern. -/
def askAbout {α : Type} (t : TableDescriptor) (call : Call) (answer : Except Fault α) :
    Run (Except Fault α) :=
  Run.ask call (answer.mapError fun f => .fault (f.within t.label))

/-! ## Opening -/

/-- An opened target. -/
structure Opened where
  table : TableDescriptor
  target : Target

/-- Opens a target. -/
def openTarget (s : Services) (mode : SyncMode) (t : TableDescriptor) : Run (Slot Opened) := do
  match ← askAbout t (.openTarget t) (s.openTarget t) with
  | .ok target => return .ok ⟨t, target⟩
  | .error f => return .error (.of t mode (.failed f))

/-- Opens the source. -/
def openSource (s : Services) (t : TableDescriptor) : Run (Except Fault Source) :=
  Run.ask (.openSource t) ((s.openSource t).mapError .fault)

/-- The results where the source could not be opened. -/
def withoutSource (mode : SyncMode) (f : Fault) (slots : List (Slot Opened)) : List TargetResult :=
  slots.map fun
    | .error result => result
    | .ok o => .failed o.table mode f

/-! ## Planning -/

/-- How a target will be brought up to date. -/
inductive Plan where
  | full
  | incremental (since : Checkpoint)
  deriving DecidableEq

namespace Plan

/-- A target goes on from its position if that was asked for and it has one. -/
def of : SyncMode → Option Checkpoint → Plan
  | .incremental, some c => .incremental c
  | _, _ => .full

/-- The mode of a plan. -/
def mode : Plan → SyncMode
  | full => .full
  | incremental _ => .incremental

/-- The position that a plan goes on from. -/
def since? : Plan → Option Checkpoint
  | full => none
  | incremental c => some c

end Plan

/-- A target with its plan. -/
structure Pending where
  table : TableDescriptor
  target : Target
  plan : Plan

/-- Looks up the position of a target and plans for it. -/
def planFor (s : Services) (mode : SyncMode) : Slot Opened → Run (Slot Pending)
  | .error result => return .error result
  | .ok o => do
    match ← askAbout o.table (.lookUp o.table) (s.position o.table) with
    | .ok position => return .ok ⟨o.table, o.target, .of mode position⟩
    | .error f => return .error (.of o.table mode (.failed f))

/-! ## Reading -/

/-- The plans of the targets that have not failed. -/
def plans (slots : List (Slot Pending)) : List Plan :=
  slots.filterMap fun s => s.toOption.map (·.plan)

/-- The oldest of some positions. -/
def oldest? : List Checkpoint → Option Checkpoint
  | [] => none
  | c :: cs => some (cs.foldl (fun best c => if c.before best then c else best) c)

/-- What was read of a source: nothing, if nobody needed it. -/
abbrev Reading (α : Type) := Option (Except Fault α)

/-- All targets that have not failed are rebuilt. -/
def allFull (slots : List (Slot Pending)) : List (Slot Pending) :=
  slots.map fun s => s.map fun p => { p with plan := .full }

/-- Reads the changes since the oldest position that a target goes on from. -/
def readChanges (source : Source) (table : TableDescriptor) (slots : List (Slot Pending)) :
    Run (List (Slot Pending) × Reading (List Change)) := do
  match oldest? ((plans slots).filterMap Plan.since?) with
  | none => return (slots, none)
  | some since =>
    match ← Run.ask (.changesSince table since) (source.changesSince since) with
    | .ok (.changes cs) => return (slots, some (.ok cs))
    | .ok .unavailable => return (allFull slots, none)
    | .error f => return (slots, some (.error f))

/-- Reads the snapshot if a target is rebuilt. -/
def readSnapshot (source : Source) (table : TableDescriptor) (slots : List (Slot Pending)) :
    Run (Reading Snapshot) := do
  if Plan.full ∈ plans slots then
    return some (← Run.ask (.currentSnapshot table) source.snapshot)
  else return none

/-! ## Committing -/

/-- What a target is given to commit. -/
inductive Supply where
  | snapshot (s : Snapshot)
  | changes (cs : List Change)
  /-- There is nothing after the position of the target. -/
  | upToDate (c : Checkpoint)
  /-- What the target needed could not be read. -/
  | unread (f : Fault)

/-- The changes after a position, which is the turning point of the changes. -/
def changesAfter (c : Checkpoint) (cs : List Change) : List Change :=
  cs.drop (TurningPoint.find (fun change => change.checkpoint.upTo c) cs)

/-- What a target is given under its plan. -/
def supply (snapshot : Reading Snapshot) (changes : Reading (List Change)) : Plan → Supply
  | .full =>
    match snapshot with
    | some (.ok s) => .snapshot s
    | some (.error f) => .unread f
    | none => .unread ⟨.readException, "source snapshot was not read"⟩
  | .incremental own =>
    match changes with
    | some (.ok cs) =>
      match changesAfter own cs with
      | [] => .upToDate own
      | rest => .changes rest
    | some (.error f) => .unread f
    | none => .unread ⟨.readException, "source changes were not read"⟩

/-- The result of a target from what its commit came to. -/
def finish (p : Pending) : Except Fault Checkpoint → TargetResult
  | .ok c => .of p.table p.plan.mode (.succeeded c)
  | .error f => .failed p.table p.plan.mode f

/-- Records the position that a commit has reached. -/
def recordPosition (s : Services) (p : Pending) (committed : Except Fault Checkpoint) :
    Run TargetResult := do
  match committed with
  | .error f => return finish p (.error f)
  | .ok c =>
    match ← Run.tell (.record p.table c) (s.recorded p.table c) with
    | .ok () => return finish p (.ok c)
    | .error f => return finish p (.error f)

/-- Commits to a target. -/
def commit (s : Services) (p : Pending) : Supply → Run TargetResult
  | .snapshot snapshot => do
    recordPosition s p
      (← Run.tell (.replaceAll p.table snapshot) (p.target.replaceAll snapshot))
  | .changes cs => do
    recordPosition s p (← Run.tell (.applyChanges p.table cs) (p.target.applyChanges cs))
  | .upToDate c => return finish p (.ok c)
  | .unread f => return finish p (.error f)

/-- Commits to a target unless it has failed already. -/
def settle (s : Services) (snapshot : Reading Snapshot) (changes : Reading (List Change)) :
    Slot Pending → Run TargetResult
  | .error result => return result
  | .ok p => commit s p (supply snapshot changes p.plan)

/-- Commits to all targets, in the order of a schedule. -/
def settleAll (s : Services) (schedule : Schedule) (snapshot : Reading Snapshot)
    (changes : Reading (List Change)) (slots : List (Slot Pending)) : Run (List TargetResult) := do
  let results ← Run.each
    (fun (slot, i) => do return (i, ← settle s snapshot changes slot)) (schedule.work slots)
  return placed slots.length results

end TableRun

open TableRun in
/-- The run of a request. Its targets are committed in the order of a schedule. -/
def SyncRequest.run (r : SyncRequest) (s : Services) (schedule : Schedule) : Run TableResult := do
  Run.require r.check
  let opened ← Run.each (openTarget s r.mode) r.targets
  match ← openSource s r.source with
  | .error f => return .of r.source (withoutSource r.mode f opened)
  | .ok source =>
    let planned ← Run.each (planFor s r.mode) opened
    let (planned, changes) ← readChanges source r.source planned
    let snapshot ← readSnapshot source r.source planned
    return .of r.source (← settleAll s schedule snapshot changes planned)

end Lakehouse
