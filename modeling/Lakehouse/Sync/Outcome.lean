import Lakehouse.Sync.Request
import Lakehouse.Table.Checkpoint

/-!
# Outcomes

What became of a table: an outcome for each of its targets, in the order of the request. A failed
target says where the failure was seen; its fault starts with the target's label.

Model of `SyncOutcome`, `TargetSyncResult` and `TableSyncResult`, with `target_label`, `failed` and
`assemble`. Left out: how long a target or a table took.
-/

namespace Lakehouse

/-- How a target is named in messages. -/
def TableDescriptor.label (t : TableDescriptor) : String := s!"{t.basePath} -> {t.format}"

/-- What became of a target. -/
inductive TargetOutcome where
  | succeeded (c : Checkpoint)
  | failed (f : Fault)
  deriving DecidableEq

/-- What became of one target of a table. -/
structure TargetResult where
  basePath : String
  format : String
  /-- The mode in which the target was synchronised. -/
  mode : SyncMode
  outcome : TargetOutcome
  deriving DecidableEq

namespace TargetResult

/-- The result of a target. -/
def of (t : TableDescriptor) (mode : SyncMode) (outcome : TargetOutcome) : TargetResult :=
  ⟨t.basePath, t.format, mode, outcome⟩

/-- A target that failed. -/
def failed (t : TableDescriptor) (mode : SyncMode) (f : Fault) : TargetResult :=
  .of t mode (.failed (f.within t.label))

/-- The position a target was brought to. -/
def checkpoint? (r : TargetResult) : Option Checkpoint :=
  match r.outcome with
  | .succeeded c => some c
  | .failed _ => none

/-- The fault of a failed target. -/
def fault? (r : TargetResult) : Option Fault :=
  match r.outcome with
  | .succeeded _ => none
  | .failed f => some f

/-- Whether the target succeeded. -/
def isSuccess (r : TargetResult) : Bool := r.checkpoint?.isSome

end TargetResult

/-- What became of a table. -/
structure TableResult where
  basePath : String
  tableName : String
  sourceFormat : String
  targets : List TargetResult
  deriving DecidableEq

namespace TableResult

/-- The result of a table. -/
def of (source : TableDescriptor) (targets : List TargetResult) : TableResult :=
  ⟨source.basePath, source.name, source.format, targets⟩

/-- The number of targets that succeeded. -/
def succeeded (r : TableResult) : Nat := r.targets.countP TargetResult.isSuccess

/-- The number of targets that failed. -/
def failed (r : TableResult) : Nat := r.targets.length - r.succeeded

/-- Whether every target succeeded. -/
def isSuccess (r : TableResult) : Bool := r.failed == 0

/-- The target of a format, whose letters may be in any case. -/
def target? (r : TableResult) (format : String) : Option TargetResult :=
  r.targets.find? fun t => Text.sameLetters t.format format

end TableResult

end Lakehouse
