import Lakehouse.Sync.CheckpointStore
import Lakehouse.Sync.Request
import Lakehouse.Table.Snapshot

/-!
# What a run calls on

The run of a table opens the source and the targets, looks up the positions of the targets, reads
the source, commits to the targets and records their new positions. `Services` gives the answer to
each of these calls. Any of them may fail, and a source may even crash. In a run each question is
asked of a source or a target at most once, so answers need not change while it lasts.

* `Call` — a question asked.
* `CheckpointStore.after` — the store once the positions recorded by some calls are in it.

Model of `ConversionSource`, `ConversionTarget` and `CheckpointStore` as one run meets them. Left
out: what their implementations do; a crash of any of them but the source.
-/

namespace Lakehouse

/-- Why a run stops. -/
inductive Halt where
  | fault (f : Fault)
  /-- The source broke down instead of answering, and left this text. -/
  | crash (text : String)
  deriving DecidableEq

/-- A stop as a fault. -/
def Halt.toFault : Halt → Fault
  | fault f => f
  | crash text => ⟨.updateException, s!"table task failed: {text}"⟩

/-- What a source knows about the time after a position. -/
inductive ChangeSet where
  /-- The commits after the position, in the order of the source. -/
  | changes (cs : List Change)
  /-- The history back to the position is no longer kept. -/
  | unavailable
  deriving DecidableEq

/-- An opened source. -/
structure Source where
  snapshot : Except Halt Snapshot
  changesSince : Checkpoint → Except Halt ChangeSet

/-- An opened target. A commit answers with the position that the target is then at. -/
structure Target where
  replaceAll : Snapshot → Except Fault Checkpoint
  applyChanges : List Change → Except Fault Checkpoint

/-- All that a run calls on. Positions are asked for by base path and format. -/
structure Services where
  openSource : TableDescriptor → Except Fault Source
  openTarget : TableDescriptor → Except Fault Target
  lookUp : String → String → Except Fault (Option Checkpoint)
  record : String → String → Checkpoint → Except Fault Unit

/-- A call that a run made. -/
inductive Call where
  | openTarget (target : TableDescriptor)
  | openSource (source : TableDescriptor)
  | lookUp (target : TableDescriptor)
  | changesSince (source : TableDescriptor) (c : Checkpoint)
  | currentSnapshot (source : TableDescriptor)
  | replaceAll (target : TableDescriptor) (s : Snapshot)
  | applyChanges (target : TableDescriptor) (cs : List Change)
  | record (target : TableDescriptor) (c : Checkpoint)
  deriving DecidableEq

/-- Whether a call changes a target or its position. -/
def Call.isCommit : Call → Bool
  | .replaceAll .. | .applyChanges .. | .record .. => true
  | _ => false

namespace Services

/-- Services that keep positions in a store and never fail to reach it. -/
def withStore (openSource : TableDescriptor → Except Fault Source)
    (openTarget : TableDescriptor → Except Fault Target) (store : CheckpointStore) : Services where
  openSource
  openTarget
  lookUp basePath format := .ok (store.get? basePath format)
  record _ _ _ := .ok ()

/-- The answer to a call for the position of a target. -/
def position (s : Services) (t : TableDescriptor) : Except Fault (Option Checkpoint) :=
  s.lookUp t.basePath t.format

/-- The answer to a call to record a position. -/
def recorded (s : Services) (t : TableDescriptor) (c : Checkpoint) : Except Fault Unit :=
  s.record t.basePath t.format c

end Services

namespace CheckpointStore

/-- The store after one call: a position that could be recorded is in it. -/
def afterCall (s : Services) (store : CheckpointStore) : Call → CheckpointStore
  | .record t c =>
    match s.recorded t c with
    | .ok () => store.put t.basePath t.format c
    | .error _ => store
  | _ => store

/-- The store after some calls. -/
def after (s : Services) (store : CheckpointStore) (calls : List Call) : CheckpointStore :=
  calls.foldl (afterCall s) store

end CheckpointStore

end Lakehouse
