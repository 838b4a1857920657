import Lakehouse.Native.Coercion
import Lakehouse.Native.Decimal

/-!
# Identity partition values

Under the value transform a partition value is the text of the column's value.

* `Identity.render` — the value has to be of a kind that the column's type accepts.
* `Identity.parse` — the text is read as the column's type.

Dates and instants have texts of their own in every format and are not handled here.

Model of `render_scalar` and `parse_scalar`.
-/

namespace Lakehouse.Identity

/-- A column type that cannot be a partition column. -/
def unsupported (type : DataType) : Fault :=
  ⟨.unsupportedSchemaType, s!"{type.name} columns cannot be partition columns"⟩

/-- A value of a kind that the column's type does not accept. -/
def mismatched (v : Value) (type : DataType) : Fault :=
  ⟨.invalidPartitionValue, s!"{v.described} does not match partition column type {type.name}"⟩

/-- Whether a column type accepts the kind of a value; no answer for types that cannot be partition
columns. -/
def accepts? (type : DataType) (v : Value) : Option Bool :=
  match type, v with
  | .string, .string _ | .enumeration, .string _ | .uuid, .string _ => some true
  | .int, .int _ | .long, .long _ | .long, .int _ => some true
  | .float, .float _ | .double, .double _ | .double, .float _ => some true
  | .boolean, .boolean _ | .decimal, .decimal _ => some true
  | .bytes, .bytes _ | .fixed, .bytes _ => some true
  | .string, _ | .enumeration, _ | .uuid, _ | .int, _ | .long, _ | .float, _ | .double, _
  | .boolean, _ | .decimal, _ | .bytes, _ | .fixed, _ => some false
  | _, _ => none

/-- The text of a value; a number that is not finite has a word of its own. -/
def text (v : Value) : String :=
  match v with
  | .float x => if x.isFinite then x.text else Native.sentinel x
  | .double x => if x.isFinite then x.text else Native.sentinel x
  | v => v.text

/-- The text of a value of a partition column. -/
def render (v : Value) (type : DataType) : Except Fault String :=
  match accepts? type v with
  | none => .error (unsupported type)
  | some false => .error (mismatched v type)
  | some true => .ok (text v)

/-- Reads the text of a value as the column's type, before failures are classified. -/
def read (s : String) (type : DataType) : Except Fault Value :=
  match type with
  | .string | .enumeration | .uuid => .ok (.string s)
  | .int => do return .int (← Native.readInt (.string s))
  | .long => do return .long (← Native.readLong (.string s))
  | .boolean => do return .boolean (← Native.readBoolean (.string s))
  | .float | .double => Native.readFloating (.string s) type
  | .decimal => do return .decimal (← Native.readDecimalText s)
  | other => .error (unsupported other)

/-- Whether texts can be read as values of the type. -/
def isReadable : DataType → Bool
  | .string | .enumeration | .uuid | .int | .long | .boolean | .float | .double | .decimal => true
  | _ => false

/-- The value of a partition column that a text denotes. -/
def parse (s : String) (type : DataType) : Except Fault Value :=
  if isReadable type then (read s type).mapError (Fault.recode .invalidPartitionValue)
  else .error (unsupported type)

end Lakehouse.Identity
