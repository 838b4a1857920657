/-!
# Data types

The types that the columns of a table can have.

Model of `DataType`, with `is_structural`, `is_temporal` and `is_timestamp`.
-/

namespace Lakehouse

/-- The type of a column, or of a part of one. -/
inductive DataType where
  | record
  | enumeration
  | list
  | map
  | fixed
  | string
  | bytes
  | boolean
  | int
  | long
  | float
  | double
  | date
  | timestamp
  /-- An instant without a time zone. -/
  | timestampNtz
  | decimal
  | uuid
  | null
  deriving DecidableEq, Repr

namespace DataType

/-- Every type. -/
def all : List DataType :=
  [.record, .enumeration, .list, .map, .fixed, .string, .bytes, .boolean, .int, .long, .float,
    .double, .date, .timestamp, .timestampNtz, .decimal, .uuid, .null]

/-- The name of a type. -/
def name : DataType → String
  | record => "RECORD"
  | enumeration => "ENUM"
  | list => "LIST"
  | map => "MAP"
  | fixed => "FIXED"
  | string => "STRING"
  | bytes => "BYTES"
  | boolean => "BOOLEAN"
  | int => "INT"
  | long => "LONG"
  | float => "FLOAT"
  | double => "DOUBLE"
  | date => "DATE"
  | timestamp => "TIMESTAMP"
  | timestampNtz => "TIMESTAMP_NTZ"
  | decimal => "DECIMAL"
  | uuid => "UUID"
  | null => "NULL"

/-- The type of that name. -/
def ofName? (name : String) : Option DataType := all.find? fun t => t.name = name

/-- Whether the type nests other columns. -/
def isStructural : DataType → Bool
  | record | list | map => true
  | _ => false

/-- Whether the type holds instants. -/
def isTimestamp : DataType → Bool
  | timestamp | timestampNtz => true
  | _ => false

/-- Whether the type holds points in time, which can be put into buckets. -/
def isTemporal : DataType → Bool
  | date | timestamp | timestampNtz => true
  | _ => false

theorem ofName?_name (t : DataType) : ofName? t.name = some t := by cases t <;> rfl

end DataType

end Lakehouse
