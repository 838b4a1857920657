import Lakehouse.Decimal.Exact
import Lakehouse.Decimal.Reader
import Lakehouse.Text.Blank
import Lakehouse.Value

/-!
# Native decimals

Native metadata may hold a decimal column as an integer, a floating-point number, text or a
decimal. All of them are brought to the column's declared precision and scale, and none is rounded
on the way. A floating-point number stands for its shortest decimal text.

Model of `normalize`.
-/

namespace Lakehouse.Native

/-- Reads a decimal, plain or scientific; blanks around it are skipped. -/
def readDecimalText (text : String) : Except Fault Decimal :=
  match Decimal.readChars (Text.trim text).toList with
  | .ok d => .ok d
  | .error problem => .error ⟨.parseException, s!"'{text}' is not a decimal: {problem.message}"⟩

/-- A native value that stands for no decimal. -/
def notDecimal (v : Value) : Fault :=
  ⟨.parseException, s!"cannot read {v.described} as a decimal"⟩

/-- The decimal that a native value stands for. -/
def toDecimal (v : Value) : Except Fault Decimal :=
  match v with
  | .int n => .ok (Decimal.ofInt32 n)
  | .long n => .ok (Decimal.ofInt64 n)
  | .float x => if x.isFinite then readDecimalText x.text else .error (notDecimal v)
  | .double x => if x.isFinite then readDecimalText x.text else .error (notDecimal v)
  | .string s => readDecimalText s
  | .decimal d => .ok d
  | other => .error (notDecimal other)

/-- The decimal that a native value stands for, at the declared precision and scale. -/
def readDecimal (v : Value) (precision scale : Nat) : Except Fault Decimal := do
  (← toDecimal v).rescale precision scale

end Lakehouse.Native
