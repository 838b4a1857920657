import Lakehouse.Sync.Outcome
import Lakehouse.Sync.Services

/-!
# Reports

A report says of each table of a run what became of it. A run counts as failed if a table was not
synchronised at all and, where that is asked for, if a target was not.

Model of `TableReport`, `BatchReport` and `BatchSummary`. Left out: the identifier and the starting
time of a run.
-/

namespace Lakehouse

/-- What became of a table. -/
inductive TableReport where
  /-- All targets were attempted. -/
  | completed (result : TableResult)
  /-- The table was given up before any target was touched. -/
  | aborted (basePath tableName : String) (f : Fault)
  deriving DecidableEq

namespace TableReport

/-- The base path of the table. -/
def basePath : TableReport → String
  | completed result => result.basePath
  | aborted basePath .. => basePath

/-- The result of the table, if its targets were attempted. -/
def result? : TableReport → Option TableResult
  | completed result => some result
  | aborted .. => none

/-- The report on a table whose run came to a value or was stopped. -/
def of (source : TableDescriptor) : Except Halt TableResult → TableReport
  | .ok result => .completed result
  | .error halt => .aborted source.basePath source.name halt.toFault

/-- A line for each failure: of every failed target, or of the table that was given up. -/
def failures : TableReport → List String
  | completed result => (result.targets.filterMap TargetResult.fault?).map Fault.message
  | aborted basePath _ f => [s!"{basePath}: {f.message}"]

end TableReport

/-- What became of the tables of a run, in the order in which they were asked for. -/
structure Report where
  tables : List TableReport
  deriving DecidableEq

/-- A report in numbers, with its failures. -/
structure Report.Summary where
  tables : Nat
  tablesAborted : Nat
  targetsSucceeded : Nat
  targetsFailed : Nat
  failures : List String
  deriving DecidableEq

namespace Report

/-- The results of the tables whose targets were attempted. -/
def results (r : Report) : List TableResult := r.tables.filterMap TableReport.result?

/-- The number of targets that succeeded. -/
def targetsSucceeded (r : Report) : Nat := r.results.foldl (· + ·.succeeded) 0

/-- The number of targets that failed. -/
def targetsFailed (r : Report) : Nat := r.results.foldl (· + ·.failed) 0

/-- The number of tables that were given up. -/
def tablesAborted (r : Report) : Nat := r.tables.countP fun t => t.result?.isNone

/-- The exit status: 1 for a failed run. A strict run fails with any of its targets. -/
def exitCode (r : Report) (strict : Bool) : Nat :=
  if r.tablesAborted > 0 || (strict && r.targetsFailed > 0) then 1 else 0

/-- A line for each failure, in the order of the tables. -/
def failures (r : Report) : List String := r.tables.flatMap TableReport.failures

/-- The report in numbers. -/
def summary (r : Report) : Summary :=
  ⟨r.tables.length, r.tablesAborted, r.targetsSucceeded, r.targetsFailed, r.failures⟩

end Report

end Lakehouse
