import Lakehouse.Calendar.EpochDay
import Lakehouse.Partition.Transform
import Lakehouse.Schema.DataType
import Lakehouse.Value

/-!
# Time buckets

A time transform puts the points in time of a column into buckets. The canonical value of a bucket
is its start: an instant in milliseconds, or the epoch day of one for a date column.

* `Bucket.start` — the start of the bucket that an instant falls into.
* `Bucket.render` and `Bucket.parse` — the text of a bucket under a date pattern, and back.

Model of `truncate_millis`, `render_time_bucket` and `parse_time_bucket`, with `temporal_millis`,
`temporal_value` and `compile_partition_pattern`.
-/

namespace Lakehouse.Bucket

/-- The milliseconds of an hour. -/
def millisPerHour : Int := 3600000

/-- The largest multiple of a unit that is not after an instant. -/
def floorTo (t : Transform) (unit : Int) (millis : Int64) : Except Fault Int64 :=
  match int64? (millis.toInt / unit * unit) with
  | some n => .ok n
  | none => .error ⟨.parseException, s!"cannot truncate {millis.toInt} ms to {t.name}"⟩

/-- The first instant of a month, in milliseconds. -/
def monthStart (year : Int) (month : Nat) : Int := (Date.mk year month 1).dayNumber * 86400000

/-- The date of an instant. -/
def dateOf (millis : Int64) : Except Fault Date :=
  match DateTime.ofMillis? millis.toInt with
  | some t => .ok t.date
  | none => .error (DatePattern.instantFault millis)

/-- The start of the bucket that an instant falls into, in milliseconds. -/
def start (t : Transform) (millis : Int64) : Except Fault Int64 :=
  match t with
  | .value => .ok millis
  | .hour => floorTo t millisPerHour millis
  | .day => floorTo t EpochDay.millisPerDay millis
  | .month => do
    let d ← dateOf millis
    return Int64.ofInt (monthStart d.year d.month)
  | .year => do
    let d ← dateOf millis
    return Int64.ofInt (monthStart d.year 1)

/-- A time transform on a column that holds no points in time. -/
def unsupported (type : DataType) (t : Transform) : Fault :=
  ⟨.unsupportedFeature, s!"{t.name} partition transform on {type.name} column"⟩

/-- A value that is no point in time of the column's type. -/
def notTemporal (v : Value) (type : DataType) : Fault :=
  ⟨.invalidPartitionValue, s!"{v.described} is not a {type.name} partition value"⟩

/-- The first instant that a canonical value of a column stands for. -/
def instant (v : Value) (type : DataType) : Except Fault Int64 :=
  match type, v with
  | .date, .int day => EpochDay.millis day
  | .timestamp, .long millis | .timestampNtz, .long millis => .ok millis
  | _, _ => .error (notTemporal v type)

/-- The canonical value of a column for an instant. -/
def canonical (millis : Int64) (type : DataType) : Except Fault Value :=
  match type with
  | .date => do return .int (← EpochDay.ofMillis millis)
  | _ => .ok (.long millis)

/-- The date pattern of a time transform. -/
def pattern (source : String) (t : Transform) : Except Fault DatePattern :=
  if Text.isAllBlank source then
    .error ⟨.invalidPartitionSpec, s!"{t.name} partition transform requires a date format"⟩
  else (DatePattern.compile source).mapError (Fault.recode .invalidPartitionSpec)

/-- The text of the bucket that a value falls into. -/
def render (v : Value) (type : DataType) (t : Transform) (source : String) :
    Except Fault String :=
  if type.isTemporal then do
    let p ← pattern source t
    let millis ← instant v type
    let begin ← (start t millis).mapError (Fault.recode .invalidPartitionValue)
    (p.writeMillis begin).mapError (Fault.recode .invalidPartitionValue)
  else .error (unsupported type t)

/-- The bucket that a text denotes. -/
def parse (text : String) (type : DataType) (t : Transform) (source : String) :
    Except Fault Value :=
  if type.isTemporal then do
    let p ← pattern source t
    let begin ← (do start t (← p.readMillis text) : Except Fault Int64).mapError
      (Fault.recode .invalidPartitionValue)
    canonical begin type
  else .error (unsupported type t)

end Lakehouse.Bucket
