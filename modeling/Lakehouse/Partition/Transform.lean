import Lakehouse.Fault
import Lakehouse.Text.Blank
import Lakehouse.Text.Letters

/-!
# Partition transforms

A transform derives a partition value from a column: the value itself, or the year, month, day or
hour that an instant falls into.

Model of `PartitionTransform`.
-/

namespace Lakehouse

/-- How a partition value is derived from its column. -/
inductive Transform where
  | value
  | year
  | month
  | day
  | hour
  deriving DecidableEq, Repr

namespace Transform

/-- Every transform. -/
def all : List Transform := [.value, .year, .month, .day, .hour]

/-- The name of a transform. -/
def name : Transform → String
  | value => "VALUE"
  | year => "YEAR"
  | month => "MONTH"
  | day => "DAY"
  | hour => "HOUR"

/-- The transform of that name. -/
def ofName? (name : String) : Option Transform := all.find? fun t => t.name = name

/-- Whether the transform puts points in time into buckets. -/
def isTimeBased : Transform → Bool
  | value => false
  | _ => true

/-- Reads a name in any case, with blanks around it. -/
def parse (text : String) : Except Fault Transform :=
  let name := Text.upper (Text.trim text)
  match ofName? name with
  | some t => .ok t
  | none => .error ⟨.invalidPartitionSpec,
      s!"unknown partition transform '{name}', expected one of VALUE, YEAR, MONTH, DAY, HOUR"⟩

theorem ofName?_name (t : Transform) : ofName? t.name = some t := by cases t <;> rfl

end Transform

end Lakehouse
