import Lakehouse.Format.Statistic

/-!
# Statistics of a column

The least and the greatest value of a column in one data file, and how many values it has. Both
bounds are converted alike, by the column's node of the table's schema.

Model of `ColumnStat`, with `to_native` and `from_native`.
-/

namespace Lakehouse

/-- What is known about a column in one data file. -/
structure ColumnStat where
  /-- The dotted path of the column. -/
  path : String
  min : Value
  max : Value
  nullCount : UInt64
  valueCount : UInt64
  deriving DecidableEq

namespace ColumnStat

/-- The node of the schema that a statistic is about. -/
def column (s : ColumnStat) (schema : Schema) : Except Fault Schema :=
  match schema.find? s.path with
  | some field => .ok field.schema
  | none => .error ⟨.invalidSchema, s!"statistics reference unknown column '{s.path}'"⟩

/-- The statistic with both bounds converted. -/
def convert (s : ColumnStat) (schema : Schema)
    (bound : Value → Schema → Except Fault Value) : Except Fault ColumnStat := do
  let field ← s.column schema
  let min ← bound s.min field
  let max ← bound s.max field
  return { s with min, max }

/-- The statistic as a format stores it. -/
def toNative (f : TableFormat) (schema : Schema) (s : ColumnStat) : Except Fault ColumnStat :=
  s.convert schema f.statToNative

/-- The statistic that a format has stored. -/
def fromNative (f : TableFormat) (schema : Schema) (s : ColumnStat) : Except Fault ColumnStat :=
  s.convert schema f.statFromNative

end ColumnStat

end Lakehouse
