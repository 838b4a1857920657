import Lakehouse.Codec.Cursor
import Lakehouse.Decimal.Reader
import Lakehouse.Value

/-!
# Values as JSON

A value is written as an object whose only member names its kind; the absent value is the string
`Null`. A decimal is written as a string and also read from a number.

Model of the serialised form of `Value`.
-/

namespace Lakehouse

/-- A decimal as JSON. -/
def Decimal.toJson (d : Decimal) : Json := .text d.text

/-- The decimal that a number's literal denotes. A floating-point number stands for its shortest
decimal text. -/
def Decimal.ofNumber? (n : Json.Number) : Option Decimal :=
  match n with
  | .natural n => make? n.toNat 0
  | .negative n => some (ofInt64 n)
  | .float x => (readPlain x.text.toList).toOption

/-- Reads a decimal from a string or a number. -/
def Decimal.ofJson? (c : Cursor) : Option Decimal :=
  match c.text?, c.number? with
  | some s, _ => (readChars s.toList).toOption
  | none, some n => ofNumber? n
  | none, none => none

namespace Value

/-- A value as JSON. -/
def toJson : Value → Json
  | null => .text "Null"
  | boolean b => .record [("Boolean", .boolean b)]
  | int n => .record [("Int", .integer n.toInt)]
  | long n => .record [("Long", .integer n.toInt)]
  | float x => .record [("Float", .ofFloat x)]
  | double x => .record [("Double", .ofFloat x)]
  | string s => .record [("String", .text s)]
  | decimal d => .record [("Decimal", d.toJson)]
  | bytes bs => .record [("Bytes", .list (fun b => .integer b.toNat) bs)]

/-- Reads the content of a value of the named kind. -/
def ofContent? (kind : String) (c : Cursor) : Option Value :=
  match kind with
  | "Null" => if c.isNull then some .null else none
  | "Boolean" => c.boolean?.map .boolean
  | "Int" => c.int32?.map .int
  | "Long" => c.int64?.map .long
  | "Float" => c.number?.map fun n => .float n.toSingle
  | "Double" => c.number?.map fun n => .double n.toDouble
  | "String" => c.text?.map .string
  | "Decimal" => (Decimal.ofJson? c).map .decimal
  | "Bytes" => (Document.list? Cursor.byte? c).map .bytes
  | _ => none

/-- Reads a value. -/
def ofJson? (c : Cursor) : Option Value := do
  match ← c.variant? with
  | (kind, some inner) => ofContent? kind inner
  | ("Null", none) => some .null
  | _ => none

end Value

end Lakehouse
