import Lakehouse.Dictionary
import Lakehouse.Table.Checkpoint
import Lakehouse.Text.Letters

/-!
# The checkpoints of targets

For each target the store keeps the position of the source up to which the target was brought.
A target is known by its base path and its format, whose letters may be in any case.

Model of `InMemoryCheckpointStore`. Left out: its lock.
-/

namespace Lakehouse

/-- The position of each target, by base path and then by format in upper case. -/
structure CheckpointStore where
  paths : Dictionary (Dictionary Checkpoint)
  deriving DecidableEq

namespace CheckpointStore

/-- Nothing is recorded. -/
def empty : CheckpointStore := ⟨.empty⟩

/-- The position of a target, if one was recorded. -/
def get? (s : CheckpointStore) (basePath format : String) : Option Checkpoint :=
  (s.paths.get? basePath).bind fun formats => formats.get? (Text.upper format)

/-- The store with a position recorded for a target, in place of an old one. -/
def put (s : CheckpointStore) (basePath format : String) (c : Checkpoint) : CheckpointStore :=
  ⟨s.paths.alter basePath fun formats => (formats.getD .empty).insert (Text.upper format) c⟩

/-- The number of targets with a position. -/
def size (s : CheckpointStore) : Nat := (s.paths.entries.flatMap fun e => e.2.entries).length

/-- Whether no target has a position. -/
def isEmpty (s : CheckpointStore) : Bool := s.size == 0

theorem get?_put (s : CheckpointStore) (basePath format : String) (c : Checkpoint)
    (otherPath otherFormat : String) :
    (s.put basePath format c).get? otherPath otherFormat =
      if otherPath = basePath ∧ Text.upper otherFormat = Text.upper format then some c
      else s.get? otherPath otherFormat := by
  unfold put get? Dictionary.alter
  rw [Dictionary.get?_insert]
  by_cases hp : otherPath = basePath
  · subst hp
    rw [if_pos rfl, Option.bind_some, Dictionary.get?_insert]
    by_cases hf : Text.upper otherFormat = Text.upper format
    · rw [if_pos hf, if_pos ⟨rfl, hf⟩]
    · rw [if_neg hf, if_neg fun h => hf h.2]
      cases s.paths.get? otherPath <;> rfl
  · rw [if_neg hp, if_neg fun h => hp h.1]

end CheckpointStore

end Lakehouse
