import Lakehouse.Decimal.Basic
import Lakehouse.Number.Shortest

/-!
# Values

A `Value` is one scalar on either side of a conversion. The canonical values of a column are a part
of them: a date is an `int` (its epoch day), an instant is a `long`. Native values may be of any
kind that a format's metadata happens to store.

* `Value.text` — the value as it stands in messages and partition paths.
* `Value.same` — equality of values: decimals are compared by number, floating-point numbers as
  numbers, so a value that is no number differs from itself.

Model of `Value`, with `is_null`, `kind` and its text.
-/

namespace Lakehouse

/-- A scalar. -/
inductive Value where
  | null
  | boolean (b : Bool)
  | int (n : Int32)
  | long (n : Int64)
  | float (x : Binary32)
  | double (x : Binary64)
  | string (s : String)
  | decimal (d : Decimal)
  | bytes (bs : List UInt8)
  deriving DecidableEq

namespace Value

/-- Whether the value is absent. -/
def isNull : Value → Bool
  | null => true
  | _ => false

/-- The name of the kind of a value. -/
def kind : Value → String
  | null => "null"
  | boolean _ => "boolean"
  | int _ => "int"
  | long _ => "long"
  | float _ => "float"
  | double _ => "double"
  | string _ => "string"
  | decimal _ => "decimal"
  | bytes _ => "bytes"

/-- The two hexadecimal digits of a byte. -/
def hexByte (b : UInt8) : List Char :=
  [Nat.digitChar (b.toNat / 16), Nat.digitChar (b.toNat % 16)]

/-- The text of a value. -/
def text : Value → String
  | null => "null"
  | boolean b => if b then "true" else "false"
  | int n => Numeral.ofInt n.toInt
  | long n => Numeral.ofInt n.toInt
  | float x => x.text
  | double x => x.text
  | string s => s
  | decimal d => d.text
  | bytes bs => String.ofList (bs.flatMap hexByte)

/-- Whether two values are of one kind and equal as values of that kind. -/
def same : Value → Value → Bool
  | null, null => true
  | boolean a, boolean b => a == b
  | int a, int b => a == b
  | long a, long b => a == b
  | float a, float b => a.same b
  | double a, double b => a.same b
  | string a, string b => a == b
  | decimal a, decimal b => a.same b
  | bytes a, bytes b => a == b
  | _, _ => false

/-- How a value is named in a message: its kind, and its text between quotes. -/
def described (v : Value) : String := s!"{v.kind} value '{v.text}'"

end Value

end Lakehouse
