import Lakehouse.Number.Numeral

/-!
# Fixed-point decimals

A `Decimal` is a whole coefficient of at most 96 bits and a scale of at most 28: the number
`coefficient / 10 ^ scale`. The scale belongs to the value (`1.5` and `1.50` are told apart when
written), but two decimals are compared by the number they denote.

* `Decimal.same` — equality of the numbers.
* `Decimal.normalize` — the least scale that keeps the number.
* `Decimal.raiseTo` — a larger scale, as far as the coefficient allows.
* `Decimal.text` — all places of the scale are written.

Model of the decimals that the conversions compute with: their range, comparison, `normalize`, a
raised scale, and text. Left out: their arithmetic.
-/

namespace Lakehouse

/-- The number `coefficient / 10 ^ scale`. -/
structure Decimal where
  coefficient : Int
  scale : Nat
  coefficient_lt : coefficient.natAbs < 2 ^ (96 : Nat)
  scale_le : scale ≤ 28
  deriving DecidableEq

namespace Decimal

/-- The largest scale. -/
def maxScale : Nat := 28

/-- Coefficients stay below this number. -/
def capacity : Nat := 2 ^ (96 : Nat)

/-- The decimal with that coefficient and scale, if both are within bounds. -/
def make? (coefficient : Int) (scale : Nat) : Option Decimal :=
  if h : coefficient.natAbs < 2 ^ (96 : Nat) ∧ scale ≤ 28 then some ⟨coefficient, scale, h.1, h.2⟩
  else none

/-- Whether two decimals denote the same number. -/
def same (a b : Decimal) : Bool :=
  a.coefficient * 10 ^ b.scale == b.coefficient * 10 ^ a.scale

/-- Drops one place of the scale, if the digit there is a zero. -/
def dropPlace? (d : Decimal) : Option Decimal :=
  if h : d.scale ≠ 0 ∧ d.coefficient % 10 = 0 then
    some ⟨d.coefficient / 10, d.scale - 1,
      by have := d.coefficient_lt; omega, by have := d.scale_le; omega⟩
  else none

theorem scale_dropPlace? {d e : Decimal} (h : d.dropPlace? = some e) : e.scale < d.scale := by
  unfold dropPlace? at h
  split at h
  · rename_i hd
    injection h with h
    subst h
    simp only
    omega
  · cases h

/-- The same number at the least scale; zero gets scale zero. -/
def normalize (d : Decimal) : Decimal :=
  match _h : d.dropPlace? with
  | some e => normalize e
  | none => d
termination_by d.scale
decreasing_by exact scale_dropPlace? _h

/-- Adds one place to the scale, if the coefficient has room for it. -/
def addPlace? (d : Decimal) : Option Decimal := make? (d.coefficient * 10) (d.scale + 1)

/-- Adds up to `n` places to the scale, stopping where the coefficient has no more room. -/
def addPlaces (d : Decimal) : Nat → Decimal
  | 0 => d
  | n + 1 => match d.addPlace? with
    | some e => e.addPlaces n
    | none => d

/-- The same number at scale `scale`, or at the scale that the coefficient allows. A zero takes
any scale. -/
def raiseTo (d : Decimal) (scale : Nat) : Decimal := d.addPlaces (scale - d.scale)

/-- The number of decimal digits of the coefficient, at least one. -/
def precision (d : Decimal) : Nat := (Numeral.digits d.coefficient.natAbs).length

/-- The decimal written out, with all places of its scale. -/
def chars (d : Decimal) : List Char :=
  (if d.coefficient < 0 then ['-'] else []) ++ Numeral.fixed d.scale d.coefficient.natAbs

/-- The text of a decimal. -/
def text (d : Decimal) : String := String.ofList d.chars

/-- A 64-bit integer at scale zero. -/
def ofInt64 (n : Int64) : Decimal :=
  ⟨n.toInt, 0, by have := n.le_toInt; have := n.toInt_lt; omega, by omega⟩

/-- A 32-bit integer at scale zero. -/
def ofInt32 (n : Int32) : Decimal :=
  ⟨n.toInt, 0, by have := n.le_toInt; have := n.toInt_lt; omega, by omega⟩

end Decimal

end Lakehouse
