import Lakehouse.Number.Binary
import Lakehouse.Number.Numeral

/-!
# The shortest decimal that reads back

A finite binary number is written with the fewest decimal digits that round back to it. Among the
decimals with that many digits that do, the nearest to the number is taken; where two are equally
near, the writer of the text says which (`Tie`).

* `Width.shortest` — for one digit, two digits and so on, the two neighbours of the number on the
  decimal grid of that many digits are tried; the first grid with a hit wins. A number whose
  neighbours all miss is written exactly, so the result reads back in every case.
* `Binary.text` — a number as text, never with an exponent.

Model of how floating-point numbers are displayed, and of the digits that JSON documents have for
them.
-/

namespace Lakehouse

/-- The decimal number `coefficient · 10 ^ exponent`. -/
structure Scientific where
  coefficient : Nat
  exponent : Int
  deriving DecidableEq, Repr

namespace Scientific

/-- The numerator of the number as a ratio. -/
def num (s : Scientific) : Nat := s.coefficient * 10 ^ s.exponent.toNat

/-- The denominator of the number as a ratio. -/
def den (s : Scientific) : Nat := 10 ^ (-s.exponent).toNat

/-- The digits of the number, in place, without an exponent. -/
def plain (s : Scientific) : List Char := Numeral.fixed (-s.exponent).toNat s.num

end Scientific

/-- Which of two equally near decimals is written. -/
inductive Tie where
  | up
  | even
  deriving DecidableEq, Repr

namespace Width

/-- The number of digits before the point of `num / den`: the least `k` with `num / den < 10 ^ k`.
It is zero or negative for a number below one tenth. -/
def leadingExponent (num den : Nat) : Int :=
  if den ≤ num then (Numeral.digits (num / den)).length
  else 1 - ((Numeral.digits ((den + num - 1) / num - 1)).length : Int)

/-- Whether a decimal rounds to the word. -/
def readsBack (w : Width) (word : Nat) (s : Scientific) : Bool := w.round s.num s.den == word

/-- The two multiples of `10 ^ exponent` around `num / den`, the nearer one first. -/
def neighbours (tie : Tie) (num den : Nat) (exponent : Int) : List Scientific :=
  let top := num * 10 ^ (-exponent).toNat
  let bottom := den * 10 ^ exponent.toNat
  let below := top / bottom
  let remainder := top % bottom
  let downFirst := 2 * remainder < bottom ∨
    (2 * remainder = bottom ∧ tie = .even ∧ below % 2 = 0)
  if downFirst then [⟨below, exponent⟩, ⟨below + 1, exponent⟩]
  else [⟨below + 1, exponent⟩, ⟨below, exponent⟩]

/-- Moves the zeros at the end of a coefficient into the exponent. -/
def stripZeros (s : Scientific) : Scientific :=
  let zeros := ((Numeral.digits s.coefficient).reverse.takeWhile (· == '0')).length
  ⟨s.coefficient / 10 ^ zeros, s.exponent + zeros⟩

/-- The exact value of a finite word as a decimal: the unit is `5 ^ k · 10 ^ -k` for the `k` with
`2 ^ k` units in one. -/
def exact (w : Width) (word : Nat) : Scientific :=
  let places := 2 ^ (w.exponent - 1) - 2 + w.fraction
  ⟨w.units word * 5 ^ places, -(places : Int)⟩

/-- The decimal with the fewest digits that rounds to a finite word. -/
def shortest (w : Width) (tie : Tie) (word : Nat) : Scientific :=
  let num := w.units word
  let den := w.unitsPerOne
  let lead := leadingExponent num den
  let grids := (List.range 17).map fun n => neighbours tie num den (lead - (n + 1 : Nat))
  let found := grids.findSome? fun pair => pair.find? (w.readsBack word)
  match found with
  | some s => stripZeros s
  | none => w.exact word

end Width

namespace Binary

variable {w : Width}

/-- The decimal with the fewest digits that rounds to a finite number, without its sign. -/
def shortest (tie : Tie) (x : Binary w) : Scientific :=
  if x.word = 0 then ⟨0, 0⟩ else w.shortest tie x.word

/-- The text of a number: the fewest digits that read back, in place. Of two equally near decimals
the larger is written. -/
def text (x : Binary w) : String :=
  if x.isNaN then "NaN"
  else
    let sign := if x.isNegative then "-" else ""
    if x.isInfinite then sign ++ "inf"
    else sign ++ String.ofList (x.shortest .up).plain

end Binary

end Lakehouse
