import Lakehouse.Partition.Transform
import Lakehouse.Text.Cut
import Lakehouse.Value

/-!
# Partition specs

A partition spec says by which columns a table is partitioned. It is written as entries
`path:TRANSFORM` or `path:TRANSFORM:pattern` between commas. A time transform needs a date pattern,
which says how its values look in partition paths; the pattern may contain colons itself. The value
transform has none.

* `PartitionSpec.parse` and `PartitionSpec.parseList` — read one entry, and a list of them; blank
  entries are skipped.
* `PartitionSpec.text` — the entry as it is written.

Model of `PartitionField`, `PartitionValue` and `PartitionFieldSpec`, with `parse`, `parse_list` and
the text of an entry.
-/

namespace Lakehouse

/-- A partition column of a table: the path of the column, and the transform. -/
structure PartitionField where
  source : String
  transform : Transform
  deriving DecidableEq, Repr

/-- The value of a partition column for one data file. Under a time transform it is the start of
the bucket. -/
structure PartitionValue where
  field : PartitionField
  value : Value
  deriving DecidableEq

/-- An entry of a partition spec. -/
structure PartitionSpec where
  source : String
  transform : Transform
  /-- The date pattern of a time transform. -/
  format : Option String
  deriving DecidableEq, Repr

namespace PartitionSpec

/-- Why a text is no entry of a partition spec. -/
inductive Problem where
  | noField (entry : String)
  | noTransform (entry : String)
  | noFormat (entry : String) (transform : Transform)
  | formatOnValue (entry : String)
  deriving DecidableEq

/-- The words for a problem. -/
def Problem.message : Problem → String
  | noField entry => s!"partition spec entry '{entry}' has no source field"
  | noTransform entry => s!"partition spec entry '{entry}' has no transform"
  | noFormat entry transform =>
    s!"partition spec entry '{entry}' uses {transform.name} without a date format"
  | formatOnValue entry => s!"partition spec entry '{entry}' sets a format on a VALUE transform"

/-- A problem of an entry is an invalid partition spec. -/
def Problem.fault (p : Problem) : Fault := ⟨.invalidPartitionSpec, p.message⟩

/-- The pattern that stands behind the second colon, unless it is blank. -/
def formatOf (cs : Option (List Char)) : Option String :=
  match cs.map Text.trimmed with
  | none | some [] => none
  | some pattern => some (String.ofList pattern)

/-- Reads one entry. -/
def parse (entry : String) : Except Fault PartitionSpec := do
  let (source, rest) := Text.cut ':' entry.toList
  let source := String.ofList (Text.trimmed source)
  if source = "" then .error (Problem.noField entry).fault
  else
    match rest with
    | none => .error (Problem.noTransform entry).fault
    | some rest =>
      let (name, format) := Text.cut ':' rest
      let transform ← Transform.parse (String.ofList name)
      match transform.isTimeBased, formatOf format with
      | true, none => .error (Problem.noFormat entry transform).fault
      | false, some _ => .error (Problem.formatOnValue entry).fault
      | _, format => .ok { source, transform, format }

/-- The entries of a list that are not blank. -/
def entries (text : String) : List String :=
  ((Text.pieces ',' text).map Text.trim).filter (· ≠ "")

/-- Reads a list of entries. -/
def parseList (text : String) : Except Fault (List PartitionSpec) := (entries text).mapM parse

/-- The partition column that an entry declares. -/
def field (s : PartitionSpec) : PartitionField := ⟨s.source, s.transform⟩

/-- The date pattern of an entry; empty for the value transform. -/
def pattern (s : PartitionSpec) : String := s.format.getD ""

/-- The text of an entry. -/
def text (s : PartitionSpec) : String :=
  match s.format with
  | none => s!"{s.source}:{s.transform.name}"
  | some pattern => s!"{s.source}:{s.transform.name}:{pattern}"

end PartitionSpec

end Lakehouse
