import Lakehouse.Text.Quoted

/-!
# Arrow types

The columns of a table in memory have Arrow types. There are more of them than tables have: only
some can be kept in a table.

* `Arrow.DataType.text` — a type as messages show it.

Model of the types that `from_arrow_schema` is given, as far as it tells them apart, and of their
text in its messages. Left out: fixed-size lists, list views, unions and run-end encoded columns,
which it refuses like every type without a case of its own; whether a map keeps its keys sorted,
which it does not look at; the metadata of fields.
-/

namespace Lakehouse.Arrow

/-- A unit of time. -/
inductive TimeUnit where
  | second
  | millisecond
  | microsecond
  | nanosecond
  deriving DecidableEq, Repr

/-- A unit of calendar intervals. -/
inductive IntervalUnit where
  | yearMonth
  | dayTime
  | monthDayNano
  deriving DecidableEq, Repr

/-- The types that have no parameters. -/
inductive Plain where
  | null
  | boolean
  | int8
  | int16
  | int32
  | int64
  | uint8
  | uint16
  | uint32
  | uint64
  | float16
  | float32
  | float64
  | date32
  | date64
  | utf8
  | largeUtf8
  | utf8View
  | binary
  | largeBinary
  | binaryView
  deriving DecidableEq, Repr

mutual

/-- The type of a column in memory. -/
inductive DataType where
  | plain (type : Plain)
  | timestamp (unit : TimeUnit) (zone : Option String)
  | time32 (unit : TimeUnit)
  | time64 (unit : TimeUnit)
  | duration (unit : TimeUnit)
  | interval (unit : IntervalUnit)
  | fixedSizeBinary (size : Int32)
  | decimal128 (precision : UInt8) (scale : Int8)
  | decimal256 (precision : UInt8) (scale : Int8)
  | struct (fields : List Field)
  | list (element : Field)
  | largeList (element : Field)
  /-- A map is a list of entries. -/
  | map (entries : Field)
  | dictionary (key value : DataType)

/-- A named column in memory. -/
inductive Field where
  | mk (name : String) (type : DataType) (nullable : Bool)

end

/-! ## Names -/

namespace TimeUnit

/-- Every unit. -/
def all : List TimeUnit := [.second, .millisecond, .microsecond, .nanosecond]

/-- The name of a unit. -/
def name : TimeUnit → String
  | second => "Second"
  | millisecond => "Millisecond"
  | microsecond => "Microsecond"
  | nanosecond => "Nanosecond"

/-- The unit of that name. -/
def ofName? (name : String) : Option TimeUnit := all.find? fun u => u.name = name

end TimeUnit

namespace IntervalUnit

/-- Every unit. -/
def all : List IntervalUnit := [.yearMonth, .dayTime, .monthDayNano]

/-- The name of a unit. -/
def name : IntervalUnit → String
  | yearMonth => "YearMonth"
  | dayTime => "DayTime"
  | monthDayNano => "MonthDayNano"

/-- The unit of that name. -/
def ofName? (name : String) : Option IntervalUnit := all.find? fun u => u.name = name

end IntervalUnit

namespace Plain

/-- Every type without parameters. -/
def all : List Plain :=
  [.null, .boolean, .int8, .int16, .int32, .int64, .uint8, .uint16, .uint32, .uint64, .float16,
    .float32, .float64, .date32, .date64, .utf8, .largeUtf8, .utf8View, .binary, .largeBinary,
    .binaryView]

/-- The name of a type. -/
def name : Plain → String
  | null => "Null"
  | boolean => "Boolean"
  | int8 => "Int8"
  | int16 => "Int16"
  | int32 => "Int32"
  | int64 => "Int64"
  | uint8 => "UInt8"
  | uint16 => "UInt16"
  | uint32 => "UInt32"
  | uint64 => "UInt64"
  | float16 => "Float16"
  | float32 => "Float32"
  | float64 => "Float64"
  | date32 => "Date32"
  | date64 => "Date64"
  | utf8 => "Utf8"
  | largeUtf8 => "LargeUtf8"
  | utf8View => "Utf8View"
  | binary => "Binary"
  | largeBinary => "LargeBinary"
  | binaryView => "BinaryView"

/-- The type of that name. -/
def ofName? (name : String) : Option Plain := all.find? fun t => t.name = name

end Plain

/-! ## Text -/

mutual

/-- A type as messages show it. -/
def DataType.text : DataType → String
  | .plain type => type.name
  | .timestamp unit none => s!"Timestamp({unit.name}, None)"
  | .timestamp unit (some zone) => s!"Timestamp({unit.name}, Some({Text.quote zone}))"
  | .time32 unit => s!"Time32({unit.name})"
  | .time64 unit => s!"Time64({unit.name})"
  | .duration unit => s!"Duration({unit.name})"
  | .interval unit => s!"Interval({unit.name})"
  | .fixedSizeBinary size => s!"FixedSizeBinary({size.toInt})"
  | .decimal128 precision scale => s!"Decimal128({precision.toNat}, {scale.toInt})"
  | .decimal256 precision scale => s!"Decimal256({precision.toNat}, {scale.toInt})"
  | .struct fields => "Struct([" ++ String.intercalate ", " (Field.texts fields) ++ "])"
  | .list element => "List(" ++ element.text ++ ")"
  | .largeList element => "LargeList(" ++ element.text ++ ")"
  | .map entries => "Map(" ++ entries.text ++ ", false)"
  | .dictionary key value => "Dictionary(" ++ key.text ++ ", " ++ value.text ++ ")"

/-- A column as messages show it. -/
def Field.text : Field → String
  | .mk name type nullable =>
    let mark := if nullable then ", nullable: true" else ""
    s!"Field \x7b name: {Text.quote name}, data_type: " ++ type.text ++ mark ++ " \x7d"

/-- Columns as messages show them. -/
def Field.texts : List Field → List String
  | [] => []
  | f :: fs => f.text :: Field.texts fs

end

end Lakehouse.Arrow
