import Lakehouse.Calendar.Instant

/-!
# Checkpoints

A checkpoint is a position in the history of a table: a commit, and the time it was made.
Checkpoints are ordered by time, and at one time by the characters of the commit's identifier.

Model of `Checkpoint` and its order.
-/

namespace Lakehouse

/-- A position in the history of a table. -/
structure Checkpoint where
  /-- The identifier that the table's own format gave the commit. -/
  commit : String
  time : Instant
  deriving DecidableEq, Repr

namespace Checkpoint

/-- Whether one position comes before another. -/
def before (a b : Checkpoint) : Bool :=
  a.time.before b.time || (a.time == b.time && a.commit < b.commit)

/-- Whether one position comes before another or is the same. -/
def upTo (a b : Checkpoint) : Bool := !b.before a

/-- How two positions compare. -/
def compare (a b : Checkpoint) : Ordering :=
  if a.before b then .lt else if b.before a then .gt else .eq

/-- The text of a checkpoint: commit and time. -/
def text (c : Checkpoint) : String := c.commit ++ "@" ++ c.time.rfc3339 "+00:00"

end Checkpoint

end Lakehouse
