import Lakehouse.Number.Binary

/-!
# The sign and the word of a number

A number is told by its sign and its word, and it is made of the two.

* `Binary.eq_ofWord`: a number is its sign and its word.
* `Binary.word_ofWord`, `Binary.isNegative_ofWord`: a number has what it was made of.
* `Binary.eq_infinity`: what is neither finite nor no number at all is an infinity.
-/

namespace Lakehouse.Binary

variable {w : Width} {word : Nat} {negative : Bool}

theorem infinity_lt_signBit (w : Width) : w.infinity < w.signBit := by
  unfold Width.infinity Width.signBit
  rw [Nat.pow_add]
  exact Nat.mul_lt_mul_of_pos_right (Nat.sub_lt (Nat.two_pow_pos _) Nat.one_pos)
    (Nat.two_pow_pos _)

theorem two_pow_bits (w : Width) : 2 ^ w.bits = 2 * w.signBit := by
  unfold Width.bits Width.signBit
  rw [Nat.add_assoc, Nat.pow_add, Nat.pow_one]

/-- A number is its sign and its word. -/
theorem eq_ofWord (x : Binary w) : x = ofWord w x.isNegative x.word := by
  obtain ⟨bits⟩ := x
  have hlt : bits.toNat < 2 * w.signBit := two_pow_bits w ▸ bits.isLt
  unfold ofWord isNegative word
  congr 1
  apply BitVec.eq_of_toNat_eq
  rw [BitVec.toNat_ofNat, two_pow_bits]
  by_cases hneg : w.signBit ≤ bits.toNat
  · have hword : bits.toNat % w.signBit = bits.toNat - w.signBit := by
      rw [Nat.mod_eq_sub_mod hneg, Nat.mod_eq_of_lt (by omega)]
    rw [decide_eq_true hneg, if_pos rfl, hword, Nat.add_sub_cancel' hneg, Nat.mod_eq_of_lt hlt]
  · have hword : bits.toNat % w.signBit = bits.toNat := Nat.mod_eq_of_lt (Nat.not_le.mp hneg)
    rw [decide_eq_false hneg, if_neg (by decide), hword, Nat.zero_add, Nat.mod_eq_of_lt hlt]

theorem toNat_ofWord (h : word < w.signBit) :
    (ofWord w negative word).bits.toNat = (if negative then w.signBit else 0) + word := by
  unfold ofWord
  rw [BitVec.toNat_ofNat, Nat.mod_eq_of_lt]
  rw [two_pow_bits]
  split <;> omega

/-- A number has the word it was made with. -/
@[simp] theorem word_ofWord (h : word < w.signBit) : (ofWord w negative word).word = word := by
  unfold Binary.word
  rw [toNat_ofWord h]
  cases negative with
  | false => simpa using Nat.mod_eq_of_lt h
  | true => simpa using Nat.mod_eq_of_lt h

/-- A number has the sign it was made with. -/
@[simp] theorem isNegative_ofWord (h : word < w.signBit) :
    (ofWord w negative word).isNegative = negative := by
  unfold isNegative
  rw [toNat_ofWord h]
  cases negative with
  | false => simpa using h
  | true => simp

theorem round_lt_signBit (w : Width) (num den : Nat) : w.round num den < w.signBit :=
  Nat.lt_of_le_of_lt (Nat.min_le_right _ _) (infinity_lt_signBit w)

@[simp] theorem word_ofRatio (w : Width) (negative : Bool) (num den : Nat) :
    (ofRatio w negative num den).word = w.round num den :=
  word_ofWord (round_lt_signBit w num den)

@[simp] theorem isNegative_ofRatio (w : Width) (negative : Bool) (num den : Nat) :
    (ofRatio w negative num den).isNegative = negative :=
  isNegative_ofWord (round_lt_signBit w num den)

/-- A number that is neither finite nor no number at all is the infinity of its sign. -/
theorem eq_infinity {x : Binary w} (hfinite : x.isFinite = false) (hnan : x.isNaN = false) :
    x = infinity w x.isNegative := by
  have hword : x.word = w.infinity := by
    unfold isFinite at hfinite
    unfold isNaN at hnan
    rw [decide_eq_false_iff_not] at hfinite hnan
    omega
  exact (eq_ofWord x).trans (congrArg (ofWord w x.isNegative) hword)

end Lakehouse.Binary
