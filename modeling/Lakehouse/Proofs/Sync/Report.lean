import Lakehouse.Sync.Report

/-!
# Reports add up

The numbers of a report and its exit status are told from the failures it lists: a line for each
target that failed, and one for each table that was given up.

* `TableResult.length_faults`, `Report.length_failures`: the lines for one table, and for all.
* `Report.AddsUp`, `Report.addsUp`: what the numbers and the exit status of a report say.
-/

namespace Lakehouse

theorem TargetResult.fault?_isSome (ended : TargetResult) :
    ended.fault?.isSome = !ended.isSuccess := by
  unfold fault? isSuccess checkpoint?
  cases ended.outcome with
  | succeeded c => rfl
  | failed f => rfl

/-- A table has as many faults as failed targets. -/
theorem TableResult.length_faults (result : TableResult) :
    (result.targets.filterMap TargetResult.fault?).length = result.failed := by
  have hfaults : (result.targets.filterMap TargetResult.fault?).length =
      result.targets.countP fun ended => !ended.isSuccess := by
    rw [List.length_filterMap_eq_countP]
    exact List.countP_congr fun ended _ => by rw [ended.fault?_isSome]
  have hall := List.length_eq_countP_add_countP TargetResult.isSuccess (l := result.targets)
  simp only [Bool.not_eq_true, Bool.decide_eq_false] at hall
  unfold TableResult.failed TableResult.succeeded
  omega

/-- A table that was not given up has a line for each failed target. -/
theorem TableReport.length_failures_completed (result : TableResult) :
    (TableReport.completed result).failures.length = result.failed := by
  show ((result.targets.filterMap TargetResult.fault?).map Fault.message).length = _
  rw [List.length_map, result.length_faults]

namespace Report

variable (r : Report)

/-- The failed targets of some tables are counted on from a number. -/
theorem length_failures_from (tables : List TableReport) (n : Nat) :
    n + (tables.flatMap TableReport.failures).length =
      (tables.filterMap TableReport.result?).foldl (· + ·.failed) n +
        tables.countP fun t => t.result?.isNone := by
  induction tables generalizing n with
  | nil => rfl
  | cons t rest ih =>
    rw [List.flatMap_cons, List.length_append, List.countP_cons]
    cases t with
    | completed result =>
      have hrest := ih (n + result.failed)
      rw [TableReport.length_failures_completed, ← Nat.add_assoc, hrest]
      rfl
    | aborted =>
      have hrest := ih n
      show n + (1 + _) = (rest.filterMap TableReport.result?).foldl (· + ·.failed) n + (_ + 1)
      omega

/-- **A report has a line for each failed target and for each table that was given up.** -/
theorem length_failures : r.failures.length = r.targetsFailed + r.tablesAborted :=
  (Nat.zero_add _).symm.trans (length_failures_from r.tables 0)

/-- The exit status is 0 exactly if the numbers that count for it are. -/
theorem exitCode_eq_zero_iff (strict : Bool) :
    r.exitCode strict = 0 ↔ r.tablesAborted = 0 ∧ (strict = true → r.targetsFailed = 0) := by
  unfold exitCode
  cases strict with
  | true => simp
  | false => simp

/-- What the numbers and the exit status of a report say: there is a line for each failed target
and for each table that was given up, a strict run has gone well if there is no line, and any other
run if every table was completed. -/
structure AddsUp : Prop where
  lines : r.summary.failures.length = r.summary.targetsFailed + r.summary.tablesAborted
  strict : r.exitCode true = 0 ↔ r.summary.failures = []
  lenient : r.exitCode false = 0 ↔ ∀ t ∈ r.tables, ∃ result, t = .completed result

/-- **Every report adds up.** -/
theorem addsUp : r.AddsUp where
  lines := r.length_failures
  strict := by
    show _ ↔ r.failures = []
    rw [exitCode_eq_zero_iff, ← List.length_eq_zero_iff, length_failures]
    simp
    omega
  lenient := by
    rw [exitCode_eq_zero_iff, tablesAborted, List.countP_eq_zero]
    simp only [Bool.false_eq_true, false_implies, and_true]
    refine forall₂_congr fun t _ => ?_
    cases t with
    | completed result => exact iff_of_true nofun ⟨result, rfl⟩
    | aborted => exact iff_of_false (fun h => h rfl) nofun

end Report

end Lakehouse
