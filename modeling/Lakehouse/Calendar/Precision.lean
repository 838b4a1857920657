import Lakehouse.Fault
import Lakehouse.Number.Bounded

/-!
# The precision of instants

An instant column counts milliseconds or microseconds since 1970. Microseconds become milliseconds
by rounding down, also before 1970; the other way may leave 64 bits.

Model of `TimestampPrecision`, `to_millis` and `from_millis`.
-/

namespace Lakehouse

/-- The unit of an instant. -/
inductive Precision where
  | millis
  | micros
  deriving DecidableEq, Repr

namespace Precision

/-- The name of a unit. -/
def name : Precision → String
  | millis => "MILLIS"
  | micros => "MICROS"

/-- The unit of that name. -/
def ofName? : String → Option Precision
  | "MILLIS" => some .millis
  | "MICROS" => some .micros
  | _ => none

/-- An instant in whole milliseconds, rounded down. -/
def toMillis (p : Precision) (instant : Int64) : Int64 :=
  match p with
  | millis => instant
  | micros => Int64.ofInt (instant.toInt / 1000)

/-- Milliseconds in the given unit. -/
def ofMillis (p : Precision) (instant : Int64) : Except Fault Int64 :=
  match p with
  | millis => .ok instant
  | micros =>
    match int64? (instant.toInt * 1000) with
    | some n => .ok n
    | none => .error ⟨.parseException, s!"{instant.toInt} ms overflows microseconds"⟩

end Precision

end Lakehouse
