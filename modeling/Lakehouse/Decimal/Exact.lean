import Lakehouse.Decimal.Basic
import Lakehouse.Fault

/-!
# Changing the scale without rounding

`Decimal.rescale` gives a decimal a declared scale and holds it to a declared precision. It never
rounds: a number that needs more places than the scale has, or more digits than the precision, is
refused.

Model of `rescale_exact` and `digit_count`.
-/

namespace Lakehouse.Decimal

/-- Why a decimal cannot take a declared precision and scale. -/
inductive Misfit where
  | scaleUnsupported (scale : Nat)
  | needsPlaces (d : Decimal) (scale : Nat)
  | needsRoom (d : Decimal) (scale : Nat)
  | needsDigits (d : Decimal) (digits precision : Nat)
  deriving DecidableEq

/-- The words for a misfit. -/
def Misfit.message : Misfit → String
  | scaleUnsupported scale => s!"scale {scale} exceeds the supported maximum {maxScale}"
  | needsPlaces d scale => s!"{d.text} cannot be represented with scale {scale} without rounding"
  | needsRoom d scale => s!"{d.text} cannot be represented with scale {scale}"
  | needsDigits d digits precision =>
    s!"{d.text} has {digits} significant digits, more than precision {precision}"

/-- A misfit is a parse error. -/
def Misfit.fault (m : Misfit) : Fault := ⟨.parseException, m.message⟩

/-- The same number at exactly that scale, with at most `precision` digits. -/
def fitTo (d : Decimal) (precision scale : Nat) : Except Misfit Decimal :=
  if maxScale < scale then .error (.scaleUnsupported scale)
  else
    let least := if scale < d.scale then d.normalize else d
    if scale < least.scale then .error (.needsPlaces d scale)
    else
      let raised := least.raiseTo scale
      if raised.scale ≠ scale then .error (.needsRoom d scale)
      else if precision < raised.precision then .error (.needsDigits d raised.precision precision)
      else .ok raised

/-- The same number at exactly that scale, with at most `precision` digits. -/
def rescale (d : Decimal) (precision scale : Nat) : Except Fault Decimal :=
  (d.fitTo precision scale).mapError Misfit.fault

end Lakehouse.Decimal
