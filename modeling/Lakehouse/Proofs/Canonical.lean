import Lakehouse.Schema.DataType
import Lakehouse.Value

/-!
# Canonical values

Outside of the formats the value of a column has one kind, which depends on the type of the column:
a date is its epoch day, an instant counts the units of its precision, and an absent value is a
value of every type.
-/

namespace Lakehouse

/-- The canonical values of a column of that type. -/
inductive Canonical : DataType → Value → Prop where
  | null (type : DataType) : Canonical type .null
  | boolean (b : Bool) : Canonical .boolean (.boolean b)
  | int (n : Int32) : Canonical .int (.int n)
  | long (n : Int64) : Canonical .long (.long n)
  | float (x : Binary32) : Canonical .float (.float x)
  | double (x : Binary64) : Canonical .double (.double x)
  | string (s : String) : Canonical .string (.string s)
  | symbol (s : String) : Canonical .enumeration (.string s)
  | uuidText (s : String) : Canonical .uuid (.string s)
  | uuid (bs : List UInt8) : Canonical .uuid (.bytes bs)
  | bytes (bs : List UInt8) : Canonical .bytes (.bytes bs)
  | fixed (bs : List UInt8) : Canonical .fixed (.bytes bs)
  | date (day : Int32) : Canonical .date (.int day)
  | timestamp (instant : Int64) : Canonical .timestamp (.long instant)
  | timestampNtz (instant : Int64) : Canonical .timestampNtz (.long instant)
  | decimal (d : Decimal) : Canonical .decimal (.decimal d)

end Lakehouse
