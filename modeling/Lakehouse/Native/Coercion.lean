import Lakehouse.Fault
import Lakehouse.Number.Bounded
import Lakehouse.Number.Scientific
import Lakehouse.Schema.DataType
import Lakehouse.Text.Blank
import Lakehouse.Text.Letters
import Lakehouse.Value

/-!
# Reading native values

A format may store a column's values in a kind of its own: numbers as text, 32-bit integers as
64-bit ones, an infinity as a word. The functions here read such a native value as the canonical
value of a type, or refuse it.

* `Native.readInt`, `Native.readLong`, `Native.readBoolean`, `Native.readFloating` — one type each.
* `Native.readCommon` — the types that every format stores alike.

Model of `parse_float_text`, `float_sentinel`, `float_from_native`, `int_from_native`,
`long_from_native`, `bool_from_native`, `common_stat_from_native` and `unexpected`.
-/

namespace Lakehouse.Native

/-- A native value that the type cannot have. -/
def unexpected (v : Value) (type : DataType) : Fault :=
  ⟨.parseException, s!"cannot read {v.described} as {type.name}"⟩

/-! ## Floating-point text -/

/-- The word for a number that is not finite. -/
def sentinel {w : Width} (x : Binary w) : String :=
  if x.isNaN then "NaN" else if x.isNegative then "-Infinity" else "Infinity"

/-- Reads a floating-point number, or a word for one that is not finite; blanks around it are
skipped. -/
def readFloatText (text : String) : Except Fault Binary64 :=
  match Text.trim text with
  | "NaN" => .ok (Binary.nan _)
  | "Infinity" | "+Infinity" => .ok (Binary.infinity _ false)
  | "-Infinity" => .ok (Binary.infinity _ true)
  | other =>
    match Scientific.read .double other with
    | .ok x => .ok x
    | .error problem => .error ⟨.parseException,
        s!"'{text}' is not a floating point value: {problem.message}"⟩

/-- The 64-bit number that a native value stands for; text is read for the type `type`. -/
def toDouble (v : Value) (type : DataType) : Except Fault Binary64 :=
  match v with
  | .float x => .ok (x.convert .double)
  | .double x => .ok x
  | .int n => .ok (Binary.ofInt _ n.toInt)
  | .long n => .ok (Binary.ofInt _ n.toInt)
  | .string s => readFloatText s
  | other => .error (unexpected other type)

/-- Reads a value of a floating-point type. A number of the type's own width is taken as it is;
every other passes through 64 bits. -/
def readFloating (v : Value) (type : DataType) : Except Fault Value :=
  match type, v with
  | .float, .float x => .ok (.float x)
  | .float, _ => do return .float ((← toDouble v type).convert .single)
  | _, _ => do return .double (← toDouble v type)

/-! ## Integers and truth values -/

/-- Reads a 32-bit integer. -/
def readInt (v : Value) : Except Fault Int32 :=
  match v with
  | .int n => .ok n
  | .long n =>
    match int32? n.toInt with
    | some m => .ok m
    | none => .error ⟨.parseException, s!"{n.toInt} does not fit in a 32-bit int"⟩
  | .string s =>
    match Numeral.readInt32 (Text.trim s) with
    | .ok n => .ok n
    | .error problem => .error ⟨.parseException, s!"'{s}' is not an int: {problem.message}"⟩
  | other => .error (unexpected other .int)

/-- Reads a 64-bit integer. -/
def readLong (v : Value) : Except Fault Int64 :=
  match v with
  | .int n => .ok (Int64.ofInt n.toInt)
  | .long n => .ok n
  | .string s =>
    match Numeral.readInt64 (Text.trim s) with
    | .ok n => .ok n
    | .error problem => .error ⟨.parseException, s!"'{s}' is not a long: {problem.message}"⟩
  | other => .error (unexpected other .long)

/-- Reads a truth value: one of the words `true` and `false` in any case, or the value itself. -/
def readBoolean (v : Value) : Except Fault Bool :=
  match v with
  | .boolean b => .ok b
  | .string s =>
    if Text.sameLetters (Text.trim s) "true" then .ok true
    else if Text.sameLetters (Text.trim s) "false" then .ok false
    else .error (unexpected v .boolean)
  | other => .error (unexpected other .boolean)

/-! ## The common types -/

/-- Reads a value of a type that every format stores alike; no result for the other types. -/
def readCommon (v : Value) (type : DataType) : Except Fault (Option Value) :=
  match type with
  | .int => do return some (.int (← readInt v))
  | .long => do return some (.long (← readLong v))
  | .boolean => do return some (.boolean (← readBoolean v))
  | .float | .double => do return some (← readFloating v type)
  | .string | .enumeration | .uuid =>
    match v with
    | .string _ | .bytes _ => .ok (some v)
    | other => .error (unexpected other type)
  | _ => .ok none

end Lakehouse.Native
