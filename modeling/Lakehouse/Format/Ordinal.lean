import Lakehouse.Calendar.Precision
import Lakehouse.Partition.Bucket

/-!
# Bucket ordinals

Iceberg stores the result of a time transform as an ordinal: the number of years, months, days or
hours since the first of them in 1970. An instant under the value transform is stored in
microseconds, and every other value as it is.

* `Ordinal.ofValue` — the ordinal of the bucket that a canonical value falls into.
* `Ordinal.toValue` — the canonical value of the start of a bucket.

Model of `transform_ordinal` and `from_transform_ordinal`, with `month_start_millis`,
`temporal_millis` and `canonical`.
-/

namespace Lakehouse.Ordinal

/-- The instant of a value that is put into a bucket. -/
def instant (v : Value) (type : DataType) (t : Transform) : Except Fault Int64 :=
  if type.isTemporal then
    match type, v with
    | .date, .int day => (EpochDay.millis day).mapError (Fault.recode .invalidPartitionValue)
    | _, _ => Bucket.instant v type
  else .error (Bucket.unsupported type t)

/-- The months from January 1970 to the month of a date. -/
def monthsSinceEpoch (d : Date) : Int := (d.year - 1970) * 12 + (d.month - 1 : Int)

/-- The number of the bucket that an instant falls into. -/
def index (t : Transform) (millis : Int64) : Except Fault Int :=
  match t with
  | .hour => .ok (millis.toInt / Bucket.millisPerHour)
  | .day => do return (← EpochDay.ofMillis millis).toInt
  | .month => do return monthsSinceEpoch (← Bucket.dateOf millis)
  | .year => do return (← Bucket.dateOf millis).year - 1970
  | .value => .ok millis.toInt

/-- The number of a bucket as the value that is stored. -/
def stored (t : Transform) (n : Int) : Except Fault Value :=
  match int32? n with
  | some ordinal => .ok (.int ordinal)
  | none => .error ⟨.invalidPartitionValue, s!"{t.name} ordinal {n} overflows an int"⟩

/-- What is stored for a canonical partition value. -/
def ofValue (v : Value) (type : DataType) (t : Transform) : Except Fault Value :=
  if v.isNull then .ok .null
  else if t.isTimeBased then do stored t (← index t (← instant v type t))
  else
    match type, v with
    | .timestamp, .long millis | .timestampNtz, .long millis => do
      return .long (← (Precision.micros.ofMillis millis).mapError
        (Fault.recode .invalidPartitionValue))
    | _, _ => .ok v

/-- The first instant of the month so many months after January 1970. -/
def monthStart? (months : Int) : Option Int :=
  (Date.make? (1970 + months / 12) ((months % 12).toNat + 1) 1).map fun d =>
    d.dayNumber * EpochDay.millisPerDay

/-- The first instant of a bucket. -/
def start? (t : Transform) (n : Int64) : Option Int64 :=
  match t with
  | .hour => int64? (n.toInt * Bucket.millisPerHour)
  | .day => int64? (n.toInt * EpochDay.millisPerDay)
  | .month => (monthStart? n.toInt).map Int64.ofInt
  | .year => (monthStart? (n.toInt * 12)).map Int64.ofInt
  | .value => some n

/-- The number that a stored ordinal holds. -/
def number (v : Value) (t : Transform) : Except Fault Int64 :=
  match v with
  | .int n => .ok (Int64.ofInt n.toInt)
  | .long n => .ok n
  | other => .error ⟨.invalidPartitionValue, s!"{other.described} is not a {t.name} ordinal"⟩

/-- A bucket that begins outside the range of instants. -/
def outOfRange (t : Transform) (n : Int64) : Fault :=
  ⟨.invalidPartitionValue, s!"{t.name} ordinal {n.toInt} is out of range"⟩

/-- The canonical partition value of what is stored. -/
def toValue (v : Value) (type : DataType) (t : Transform) : Except Fault Value :=
  if v.isNull then .ok .null
  else if t.isTimeBased then
    if type.isTemporal then do
      let n ← number v t
      match start? t n with
      | none => .error (outOfRange t n)
      | some millis => (Bucket.canonical millis type).mapError (Fault.recode .invalidPartitionValue)
    else .error (Bucket.unsupported type t)
  else
    match type, v with
    | .timestamp, .long micros | .timestampNtz, .long micros =>
      .ok (.long (Precision.micros.toMillis micros))
    | _, _ => .ok v

end Lakehouse.Ordinal
