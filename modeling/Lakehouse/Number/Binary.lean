import Lakehouse.Number.Bounded

/-!
# Binary floating-point numbers

A `Width` is a binary interchange format: so many stored fraction bits, so many exponent bits.
`Binary w` is a number of that width, held as its bits. The lower bits, the *word* of a number,
grow with its magnitude: rounding a ratio is one division, and the carry of a rounded significand
into the exponent is the carry of an addition.

* `Width.units` — the magnitude of a finite word, counted in the least positive number.
* `Width.round` — the word nearest a ratio, a tie going to the even word; everything from the
  midpoint above the largest finite number on is an infinity.
* `Binary.convert` — the number of another width nearest this one.

Model of floating-point numbers of 32 and 64 bits, as far as they are read, written, compared and
converted. Left out: their arithmetic, but for what `Json.Number` needs.
-/

namespace Lakehouse

/-- A binary interchange format. -/
structure Width where
  fraction : Nat
  exponent : Nat
  deriving DecidableEq

namespace Width

/-- Numbers of 32 bits. -/
def single : Width := ⟨23, 8⟩

/-- Numbers of 64 bits. -/
def double : Width := ⟨52, 11⟩

/-- All bits of a number: sign, exponent, fraction. -/
abbrev bits (w : Width) : Nat := 1 + w.exponent + w.fraction

/-- The value of the sign bit. -/
def signBit (w : Width) : Nat := 2 ^ (w.exponent + w.fraction)

/-- The word of an infinity. A larger word is no number. -/
def infinity (w : Width) : Nat := (2 ^ w.exponent - 1) * 2 ^ w.fraction

/-- How many times the least positive number goes into one. -/
def unitsPerOne (w : Width) : Nat := 2 ^ (2 ^ (w.exponent - 1) - 2 + w.fraction)

/-- The magnitude of a finite word, counted in the least positive number. -/
def units (w : Width) (word : Nat) : Nat :=
  let field := word / 2 ^ w.fraction
  let rest := word % 2 ^ w.fraction
  if field = 0 then rest else (2 ^ w.fraction + rest) * 2 ^ (field - 1)

end Width

/-- The whole number nearest `num / den`, a tie going to the even one. -/
def roundHalfEven (num den : Nat) : Nat :=
  let quotient := num / den
  let remainder := num % den
  if 2 * remainder < den ∨ (2 * remainder = den ∧ quotient % 2 = 0) then quotient
  else quotient + 1

/-- The word nearest `num / den`, a tie going to the even word. -/
def Width.round (w : Width) (num den : Nat) : Nat :=
  let units := num * w.unitsPerOne
  let shift := Nat.log2 (units / den) - w.fraction
  min (shift * 2 ^ w.fraction + roundHalfEven units (den * 2 ^ shift)) w.infinity

/-- A floating-point number of width `w`, as its bits. -/
structure Binary (w : Width) where
  bits : BitVec w.bits
  deriving DecidableEq

/-- A 32-bit floating-point number. -/
abbrev Binary32 := Binary .single

/-- A 64-bit floating-point number. -/
abbrev Binary64 := Binary .double

namespace Binary

variable {w : Width}

/-- The number with that sign and word. -/
def ofWord (w : Width) (negative : Bool) (word : Nat) : Binary w :=
  ⟨BitVec.ofNat _ ((if negative then w.signBit else 0) + word)⟩

/-- Whether the sign bit is set. -/
def isNegative (x : Binary w) : Bool := w.signBit ≤ x.bits.toNat

/-- The bits below the sign bit. -/
def word (x : Binary w) : Nat := x.bits.toNat % w.signBit

/-- Whether it is no number at all. -/
def isNaN (x : Binary w) : Bool := w.infinity < x.word

/-- Whether it is one of the two infinities. -/
def isInfinite (x : Binary w) : Bool := x.word == w.infinity

/-- Whether it is a number of finite magnitude. -/
def isFinite (x : Binary w) : Bool := x.word < w.infinity

/-- A value that is no number. -/
def nan (w : Width) : Binary w := ofWord w false (w.infinity + 2 ^ (w.fraction - 1))

/-- An infinity. -/
def infinity (w : Width) (negative : Bool) : Binary w := ofWord w negative w.infinity

/-- The magnitude of a finite number, counted in the least positive number. -/
def units (x : Binary w) : Nat := w.units x.word

/-- The number nearest `± num / den`. -/
def ofRatio (w : Width) (negative : Bool) (num den : Nat) : Binary w :=
  ofWord w negative (w.round num den)

/-- The number nearest an integer. -/
def ofInt (w : Width) (n : Int) : Binary w := ofRatio w (n < 0) n.natAbs 1

/-- The number of width `v` nearest `x`. -/
def convert (v : Width) (x : Binary w) : Binary v :=
  if x.isNaN then nan v
  else if x.isInfinite then infinity v x.isNegative
  else ofRatio v x.isNegative x.units w.unitsPerOne

/-- Equality of numbers: the two zeros are one number, and no number equals itself only when it is
none. -/
def same (x y : Binary w) : Bool :=
  !x.isNaN && !y.isNaN && (x == y || (x.word == 0 && y.word == 0))

end Binary

end Lakehouse
