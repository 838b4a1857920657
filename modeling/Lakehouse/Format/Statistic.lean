import Lakehouse.Calendar.EpochDay
import Lakehouse.Format.Basic
import Lakehouse.Format.Pattern
import Lakehouse.Native.Coercion
import Lakehouse.Native.Decimal
import Lakehouse.Schema.Basic

/-!
# Column statistics of the formats

A bound of a column statistic is converted between its canonical value and the form in which a
format stores it. The formats differ in dates, instants and numbers that are not finite:

* Hudi keeps dates and instants as they are, at the column's declared precision.
* Delta stores them as text, instants to the second, and writes a word for a number that is not
  finite.
* Iceberg keeps dates and stores every instant in microseconds.

`TableFormat.statToNative` and `TableFormat.statFromNative` do the rest alike for all of them.

Model of `stat_to_native` and `stat_from_native`, of `TableFormat` and of each format, with
`precision_of` and `decimal_spec`. The three pairs are one here, with the cases in which they
differ.
-/

namespace Lakehouse

/-- A decimal column without its declaration. -/
def Schema.undeclaredDecimal (s : Schema) : Fault :=
  ⟨.invalidSchema, s!"decimal field '{s.name}' is missing scale or precision"⟩

/-- The declared precision and scale of a decimal column. -/
def Schema.decimalSpec (s : Schema) : Except Fault (Nat × Nat) :=
  match s.decimalPrecision?, s.decimalScale? with
  | some precision, some scale => .ok (precision.toNat, scale.toNat)
  | _, _ => .error s.undeclaredDecimal

/-- A native value at the declared precision and scale of a decimal column. -/
def Schema.readDecimal (s : Schema) (v : Value) : Except Fault Value := do
  let (precision, scale) ← s.decimalSpec
  return .decimal (← Native.readDecimal v precision scale)

namespace TableFormat

/-! ## To a format -/

/-- An epoch day as a format stores it. -/
def writeDay (f : TableFormat) (day : Int32) : Except Fault Value :=
  match f with
  | hudi | iceberg => .ok (.int day)
  | delta => do return .string (← EpochDay.iso day)

/-- An instant of the given precision as a format stores it. -/
def writeInstant (f : TableFormat) (precision : Precision) (instant : Int64) :
    Except Fault Value :=
  match f, precision with
  | hudi, _ => .ok (.long instant)
  | delta, _ => do return .string (← DatePattern.seconds.writeMillis (precision.toMillis instant))
  | iceberg, .micros => .ok (.long instant)
  | iceberg, .millis => do return .long (← Precision.micros.ofMillis instant)

/-- A bound that is stored as it is, unless the format has a word for it. -/
def writePlain (f : TableFormat) (type : DataType) (v : Value) : Value :=
  match f, type, v with
  | delta, .float, .float x => if x.isFinite then v else .string (Native.sentinel x)
  | delta, .double, .double x => if x.isFinite then v else .string (Native.sentinel x)
  | _, _, _ => v

/-- A canonical bound of a column as a format stores it. -/
def statToNative (f : TableFormat) (v : Value) (field : Schema) : Except Fault Value :=
  if v.isNull then .ok .null
  else
    match field.type, v with
    | .date, .int day => f.writeDay day
    | .timestamp, .long instant | .timestampNtz, .long instant =>
      f.writeInstant field.precision instant
    | .date, _ | .timestamp, _ | .timestampNtz, _ => .error (Native.unexpected v field.type)
    | .decimal, _ => field.readDecimal v
    | type, _ => .ok (f.writePlain type v)

/-! ## From a format -/

/-- The epoch day that a native bound stands for. -/
def readDay (f : TableFormat) (v : Value) : Except Fault Value :=
  match f, v with
  | _, .int day => .ok (.int day)
  | hudi, .long _ => do return .int (← Native.readInt v)
  | _, .string text => do return .int (← EpochDay.read text)
  | _, _ => .error (Native.unexpected v .date)

/-- The instant, in the given precision, that a native bound stands for. -/
def readInstant (f : TableFormat) (precision : Precision) (type : DataType) (v : Value) :
    Except Fault Value :=
  match f, v with
  | iceberg, .long micros =>
    .ok (.long (match precision with
      | .micros => micros
      | .millis => Precision.micros.toMillis micros))
  | _, .long instant => .ok (.long instant)
  | hudi, .int instant => .ok (.long (Int64.ofInt instant.toInt))
  | _, .string text => do
    return .long (← precision.ofMillis (← DatePattern.seconds.readMillis text))
  | _, _ => .error (Native.unexpected v type)

/-- A column type without statistics. -/
def noStatistics (type : DataType) : Fault :=
  ⟨.unsupportedSchemaType, s!"{type.name} columns carry no statistics"⟩

/-- The canonical value of a native bound of a column. -/
def statFromNative (f : TableFormat) (v : Value) (field : Schema) : Except Fault Value :=
  if v.isNull then .ok .null
  else
    match field.type with
    | .date => f.readDay v
    | .timestamp | .timestampNtz => f.readInstant field.precision field.type v
    | .decimal => field.readDecimal v
    | type => do
      match ← Native.readCommon v type with
      | some value => .ok value
      | none => if type.isStructural then .error (noStatistics type) else .ok v

end TableFormat

end Lakehouse
