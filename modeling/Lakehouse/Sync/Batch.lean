import Lakehouse.Sync.Report
import Lakehouse.Sync.TableRun

/-!
# Batches

A batch runs many tables. Every table is run for itself, against the positions that the tables
before it have left in the checkpoint store; the order of work is open, and the report is in the
order of the entries. An entry for which there is no request takes its place in the report.

* `Batch.run` — the report on all entries, the calls made and the store afterwards.

Model of `run_batch`. Left out: how many tables run at once, and logging. Runs that overlap are
those of `Proofs.Sync.Overlap`.
-/

namespace Lakehouse

/-- A table of a batch: a request, or the report on a table that has none. -/
abbrev BatchEntry := Except TableReport SyncRequest

/-- What a batch has come to. -/
structure Batch where
  store : CheckpointStore
  /-- The calls of all runs, in the order in which they were made. -/
  calls : List Call
  /-- The reports so far, with the positions of their entries. -/
  reports : List (Nat × TableReport)

namespace Batch

/-- A batch that has not begun. -/
def start (store : CheckpointStore) : Batch := ⟨store, [], []⟩

/-- Runs one entry. -/
def step (services : CheckpointStore → Services) (targets : Schedule) (b : Batch) :
    BatchEntry × Nat → Batch
  | (.error report, i) => { b with reports := b.reports ++ [(i, report)] }
  | (.ok request, i) =>
    let s := services b.store
    let run := request.run s targets
    { store := b.store.after s run.calls
      calls := b.calls ++ run.calls
      reports := b.reports ++ [(i, .of request.source run.value)] }

/-- Runs all entries. Tables and the targets of a table are worked on in the order of schedules. -/
def run (services : CheckpointStore → Services) (tables targets : Schedule)
    (store : CheckpointStore) (entries : List BatchEntry) : Batch :=
  (tables.work entries).foldl (step services targets) (start store)

/-- The report on a batch of `n` entries. -/
def report (b : Batch) (n : Nat) : Report := ⟨placed n b.reports⟩

end Batch

end Lakehouse
