import Lakehouse.Format.Basic
import Lakehouse.Format.Pattern
import Lakehouse.Partition.Bucket
import Lakehouse.Partition.Identity

/-!
# Partition values of the formats

A partition value is converted between its canonical value and the text that a format stores; an
absent value has no text. The formats differ in the pattern of an instant:

* Hudi and Delta take the date pattern of the partition spec, Iceberg has one pattern for each
  transform.
* Without a pattern, an instant under the value transform is its number in Hudi, and spelled to the
  second in Delta.

Model of `partition_to_native` and `partition_from_native`, of `TableFormat` and of each format. The
three pairs are one here, with the cases in which they differ.
-/

namespace Lakehouse.TableFormat

/-- The pattern of a time transform. -/
def bucketPattern (f : TableFormat) (t : Transform) (pattern : String) : String :=
  match f with
  | hudi | delta => pattern
  | iceberg => DatePattern.human t

/-- The pattern of an instant under the value transform; none if its number is written. -/
def instantPattern (f : TableFormat) (pattern : String) : Except Fault (Option DatePattern) :=
  let compiled := (DatePattern.compile pattern).mapError (Fault.recode .invalidPartitionSpec)
  match f with
  | hudi => if Text.isAllBlank pattern then .ok none else do return some (← compiled)
  | delta => if Text.isAllBlank pattern then .ok (some .seconds) else do return some (← compiled)
  | iceberg => .ok (some .micros)

/-- The text of an instant under the value transform. -/
def writeInstantText (f : TableFormat) (millis : Int64) (pattern : String) :
    Except Fault String := do
  match ← f.instantPattern pattern with
  | none => .ok (Numeral.ofInt millis.toInt)
  | some p => (p.writeMillis millis).mapError (Fault.recode .invalidPartitionValue)

/-- The instant that a text denotes under the value transform. -/
def readInstantText (f : TableFormat) (text pattern : String) : Except Fault Int64 := do
  match ← f.instantPattern pattern with
  | none => (Native.readLong (.string text)).mapError (Fault.recode .invalidPartitionValue)
  | some p => (p.readMillis text).mapError (Fault.recode .invalidPartitionValue)

/-- The text of a value that is present, under the value transform. -/
def writeIdentity (f : TableFormat) (v : Value) (type : DataType) (pattern : String) :
    Except Fault String :=
  match type, v with
  | .date, .int day => (EpochDay.iso day).mapError (Fault.recode .invalidPartitionValue)
  | .timestamp, .long millis | .timestampNtz, .long millis => f.writeInstantText millis pattern
  | .date, _ | .timestamp, _ | .timestampNtz, _ => .error (Bucket.notTemporal v type)
  | _, _ => Identity.render v type

/-- The value that a text denotes under the value transform. -/
def readIdentity (f : TableFormat) (text : String) (type : DataType) (pattern : String) :
    Except Fault Value :=
  match type with
  | .date => do
    return .int (← (EpochDay.read text).mapError (Fault.recode .invalidPartitionValue))
  | .timestamp | .timestampNtz => do return .long (← f.readInstantText text pattern)
  | _ => Identity.parse text type

/-- The text that a format stores for a partition value; none for an absent value. -/
def partitionToNative (f : TableFormat) (v : Value) (type : DataType) (t : Transform)
    (pattern : String) : Except Fault (Option String) :=
  if v.isNull then .ok none
  else if t.isTimeBased then do return some (← Bucket.render v type t (f.bucketPattern t pattern))
  else do return some (← f.writeIdentity v type pattern)

/-- The partition value that a format's text stands for. -/
def partitionFromNative (f : TableFormat) (native : Option String) (type : DataType)
    (t : Transform) (pattern : String) : Except Fault Value :=
  match native with
  | none => .ok .null
  | some text =>
    if t.isTimeBased then Bucket.parse text type t (f.bucketPattern t pattern)
    else f.readIdentity text type pattern

end Lakehouse.TableFormat
