import Lakehouse.Proofs.Number.Shortest
import Mathlib.Algebra.Order.Ring.Abs
import Mathlib.Tactic.LinearCombination

/-!
# Decimals keep away from midpoints

A decimal of few digits is not near the midpoint between two 32-bit numbers, unless it is that
midpoint. Brought to a fixed size, a significand `c` and the significand `y` of a midpoint would be a
fraction `y / c` near a fixed slope, the power of ten. Two neighbouring fractions around the slope
with large denominators leave no room for it: every pair of integers is a combination of the two, and
with the bound on `c` it is a multiple of one of them or far away from the slope.

* `Bracket.eq_multiple_or_far`: what two neighbouring fractions say about all others.
* `Bracket.Separates`: what is checked of two fractions, and `Bracket.search`, which finds them.
* `Bracket.separates_around`: they are found for every power of ten that occurs.
* `Bracket.separation`: what follows for decimals and midpoints.
-/

namespace Lakehouse

/-- A fraction below and a fraction above a slope. -/
structure Bracket where
  lowDen : Nat
  lowNum : Nat
  highDen : Nat
  highNum : Nat

namespace Bracket

variable {b : Bracket} {num den bound c y : Nat}

/-! ## Neighbouring fractions -/

/-- The two fractions are neighbours, the slope is between them, and no fraction between them has a
denominator within the bound. -/
structure Encloses (b : Bracket) (num den bound : Nat) : Prop where
  neighbours : b.highNum * b.lowDen = b.highDen * b.lowNum + 1
  low_le : b.lowNum * den ≤ b.lowDen * num
  le_high : b.highDen * num ≤ b.highNum * den
  bound_lt : bound < b.lowDen + b.highDen

instance (b : Bracket) (num den bound : Nat) : Decidable (b.Encloses num den bound) :=
  decidable_of_iff (b.highNum * b.lowDen = b.highDen * b.lowNum + 1 ∧
      b.lowNum * den ≤ b.lowDen * num ∧ b.highDen * num ≤ b.highNum * den ∧
      bound < b.lowDen + b.highDen)
    ⟨fun ⟨h₁, h₂, h₃, h₄⟩ => ⟨h₁, h₂, h₃, h₄⟩, fun ⟨h₁, h₂, h₃, h₄⟩ => ⟨h₁, h₂, h₃, h₄⟩⟩

/-- How far the lower fraction is from the slope, on the scale of both denominators. -/
def lowError (b : Bracket) (num den : Nat) : Nat := b.lowDen * num - b.lowNum * den

/-- How far the upper fraction is from the slope, on the scale of both denominators. -/
def highError (b : Bracket) (num den : Nat) : Nat := b.highNum * den - b.highDen * num

theorem Encloses.natCast_lowError (h : b.Encloses num den bound) :
    (b.lowError num den : ℤ) = b.lowDen * num - b.lowNum * den := by
  unfold lowError
  push_cast [h.low_le]
  rfl

theorem Encloses.natCast_highError (h : b.Encloses num den bound) :
    (b.highError num den : ℤ) = b.highNum * den - b.highDen * num := by
  unfold highError
  push_cast [h.le_high]
  rfl

/-- **Every fraction within the bound is one of two neighbours, or it is far from the slope**: as far
as both of them together. -/
theorem eq_multiple_or_far (h : b.Encloses num den bound) (hpos : 0 < c) (hc : c ≤ bound) :
    (∃ k, c = k * b.lowDen ∧ y = k * b.lowNum) ∨ (∃ k, c = k * b.highDen ∧ y = k * b.highNum) ∨
      (b.lowError num den + b.highError num den : ℤ) ≤ |(c * num - y * den : ℤ)| := by
  have hdet : (b.highNum * b.lowDen : ℤ) = b.highDen * b.lowNum + 1 := by
    exact_mod_cast h.neighbours
  have hlowNonneg : (0 : ℤ) ≤ b.lowError num den := Int.natCast_nonneg _
  have hhighNonneg : (0 : ℤ) ≤ b.highError num den := Int.natCast_nonneg _
  -- the coordinates of the pair in terms of the two fractions
  obtain ⟨i, hi⟩ : ∃ i : ℤ, i = b.highNum * c - b.highDen * y := ⟨_, rfl⟩
  obtain ⟨j, hj⟩ : ∃ j : ℤ, j = b.lowDen * y - b.lowNum * c := ⟨_, rfl⟩
  have hcij : (c : ℤ) = i * b.lowDen + j * b.highDen := by
    rw [hi, hj]
    linear_combination (-c : ℤ) * hdet
  have hyij : (y : ℤ) = i * b.lowNum + j * b.highNum := by
    rw [hi, hj]
    linear_combination (-y : ℤ) * hdet
  have herror : (c * num - y * den : ℤ) =
      i * b.lowError num den - j * b.highError num den := by
    rw [hcij, hyij, h.natCast_lowError, h.natCast_highError]
    ring
  have hlowDen : (0 : ℤ) ≤ b.lowDen := Int.natCast_nonneg _
  have hhighDen : (0 : ℤ) ≤ b.highDen := Int.natCast_nonneg _
  have hboundz : (bound : ℤ) < b.lowDen + b.highDen := by exact_mod_cast h.bound_lt
  have hposz : (0 : ℤ) < c := by exact_mod_cast hpos
  have hcz : (c : ℤ) ≤ bound := by exact_mod_cast hc
  have hmany : ∀ {k m : ℤ}, 0 < k → 0 ≤ m → m ≤ k * m := fun hk hm =>
    le_mul_of_one_le_left hm (Int.add_one_le_of_lt hk)
  rcases lt_trichotomy i 0 with hineg | rfl | hipos
  · rcases lt_or_ge 0 j with hjpos | hjneg
    · have hfarLow := hmany (neg_pos.mpr hineg) hlowNonneg
      have hfarHigh := hmany hjpos hhighNonneg
      refine .inr (.inr ?_)
      rw [herror, abs_sub_comm]
      refine le_trans ?_ (le_abs_self _)
      linarith
    · have hfirst := mul_nonpos_of_nonpos_of_nonneg hineg.le hlowDen
      have hsecond := mul_nonpos_of_nonpos_of_nonneg hjneg hhighDen
      omega
  · have hjpos : 0 < j := by
      refine lt_of_mul_lt_mul_right ?_ hhighDen
      omega
    obtain ⟨k, rfl⟩ := Int.eq_ofNat_of_zero_le hjpos.le
    rw [zero_mul, zero_add] at hcij hyij
    exact .inr (.inl ⟨k, by exact_mod_cast hcij, by exact_mod_cast hyij⟩)
  · rcases lt_trichotomy j 0 with hjneg | rfl | hjpos
    · have hfarLow := hmany hipos hlowNonneg
      have hfarHigh := hmany (neg_pos.mpr hjneg) hhighNonneg
      refine .inr (.inr ?_)
      rw [herror]
      refine le_trans ?_ (le_abs_self _)
      linarith
    · obtain ⟨k, rfl⟩ := Int.eq_ofNat_of_zero_le hipos.le
      rw [zero_mul, add_zero] at hcij hyij
      exact .inl ⟨k, by exact_mod_cast hcij, by exact_mod_cast hyij⟩
    · have hfirst := hmany hipos hlowDen
      have hsecond := hmany hjpos hhighDen
      omega

/-! ## What is checked of two fractions -/

/-- What keeps the multiples of a fraction `p / q` away from the midpoints where ten has the exponent
`e`: it is far from the slope; or only itself it is of the size of a significand, and it is too odd
for a midpoint; or it is the slope, and the power of ten is small. One fraction is let through. -/
def Harmless (e : ℤ) (num q p error : Nat) : Prop :=
  (2 ^ 48 + 1) * (q * num) < 2 ^ 100 * error ∨ (2 ^ 23 < q ∧ 2 ^ 25 ≤ p ∧ p % 2 = 1) ∨
    (error = 0 ∧ e.natAbs ≤ 22) ∨ (e = -32 ∧ q = 7038531)

instance (e : ℤ) (num q p error : Nat) : Decidable (Harmless e num q p error) :=
  inferInstanceAs (Decidable (_ ∨ _))

/-- Two fractions around a slope that keep all significands away from the midpoints. -/
structure Separates (b : Bracket) (e : ℤ) (num den : Nat) : Prop where
  encloses : b.Encloses num den (2 ^ 24 + 1)
  low : Harmless e num b.lowDen b.lowNum (b.lowError num den)
  high : Harmless e num b.highDen b.highNum (b.highError num den)
  far : (2 ^ 48 + 1) * ((2 ^ 24 + 1) * num) <
    2 ^ 100 * (b.lowError num den + b.highError num den)

instance (b : Bracket) (e : ℤ) (num den : Nat) : Decidable (b.Separates e num den) :=
  decidable_of_iff (b.Encloses num den (2 ^ 24 + 1) ∧
      Harmless e num b.lowDen b.lowNum (b.lowError num den) ∧
      Harmless e num b.highDen b.highNum (b.highError num den) ∧
      (2 ^ 48 + 1) * ((2 ^ 24 + 1) * num) <
        2 ^ 100 * (b.lowError num den + b.highError num den))
    ⟨fun ⟨h₁, h₂, h₃, h₄⟩ => ⟨h₁, h₂, h₃, h₄⟩, fun ⟨h₁, h₂, h₃, h₄⟩ => ⟨h₁, h₂, h₃, h₄⟩⟩

variable {e : ℤ} {q p error k : Nat}

/-- A significand and the significand of a midpoint, brought to the same size. -/
structure Sized (c y : Nat) : Prop where
  low : 2 ^ 23 ≤ c
  high : c ≤ 2 ^ 24 + 1
  even : 2 ^ 25 ≤ y → y % 2 = 0

/-- A multiple of a harmless fraction is not near the slope, unless it is the slope. -/
theorem Harmless.of_multiple (h : Harmless e num q p error) (hsized : Sized (k * q) (k * p))
    (herror : |((k * q : Nat) * num - (k * p : Nat) * den : ℤ)| = k * error)
    (hclose : 2 ^ 100 * |((k * q : Nat) * num - (k * p : Nat) * den : ℤ)| ≤
      (2 ^ 48 + 1) * ((k * q : Nat) * num)) :
    (k * q * num = k * p * den ∧ e.natAbs ≤ 22) ∨ (e = -32 ∧ k * q = 14077062) := by
  obtain ⟨hlow, hhigh, heven⟩ := hsized
  have hk : 0 < k := Nat.pos_of_ne_zero fun hzero => by simp [hzero] at hlow
  rcases h with hfar | ⟨hlarge, hmid, hodd⟩ | ⟨rfl, hexact⟩ | ⟨he, rfl⟩
  · rw [herror] at hclose
    have hclose : k * (2 ^ 100 * error) ≤ k * ((2 ^ 48 + 1) * (q * num)) := by
      have hnat : 2 ^ 100 * (k * error) ≤ (2 ^ 48 + 1) * (k * q * num) := by exact_mod_cast hclose
      calc k * (2 ^ 100 * error) = 2 ^ 100 * (k * error) := by ring
        _ ≤ (2 ^ 48 + 1) * (k * q * num) := hnat
        _ = k * ((2 ^ 48 + 1) * (q * num)) := by ring
    exact absurd (Nat.le_of_mul_le_mul_left hclose hk) (Nat.not_le.mpr hfar)
  · have hone : k = 1 := by
      by_contra hne
      have hmul : 2 * q ≤ k * q := Nat.mul_le_mul_right q (by omega)
      omega
    subst hone
    rw [Nat.one_mul] at heven
    exact absurd (heven hmid) (by omega)
  · refine .inl ⟨?_, hexact⟩
    rw [Nat.cast_zero, mul_zero, abs_eq_zero, sub_eq_zero] at herror
    exact_mod_cast herror
  · refine .inr ⟨he, ?_⟩
    omega

/-- **Between the two fractions there is no room**: a significand is not near a midpoint, unless it
is that midpoint. -/
theorem Separates.eq_or_exception (h : b.Separates e num den) (hsized : Sized c y)
    (hclose : 2 ^ 100 * |(c * num - y * den : ℤ)| ≤ (2 ^ 48 + 1) * (c * num)) :
    (c * num = y * den ∧ e.natAbs ≤ 22) ∨ (e = -32 ∧ c = 14077062) := by
  obtain ⟨hencloses, hlow, hhigh, hfar⟩ := h
  have hpos : 0 < c := Nat.lt_of_lt_of_le (by decide) hsized.low
  rcases eq_multiple_or_far (y := y) hencloses hpos hsized.high with
    ⟨k, rfl, rfl⟩ | ⟨k, rfl, rfl⟩ | hboth
  · have hdistance : ((k * b.lowDen : Nat) * num - (k * b.lowNum : Nat) * den : ℤ) =
        k * b.lowError num den := by
      rw [hencloses.natCast_lowError]
      push_cast
      ring
    refine hlow.of_multiple hsized ?_ hclose
    rw [hdistance]
    exact abs_of_nonneg (by positivity)
  · have hdistance : ((k * b.highNum : Nat) * den - (k * b.highDen : Nat) * num : ℤ) =
        k * b.highError num den := by
      rw [hencloses.natCast_highError]
      push_cast
      ring
    refine hhigh.of_multiple hsized ?_ hclose
    rw [abs_sub_comm, hdistance]
    exact abs_of_nonneg (by positivity)
  · have hbound : (c : ℤ) * num ≤ (2 ^ 24 + 1) * num :=
      mul_le_mul_of_nonneg_right (by exact_mod_cast hsized.high) (Int.natCast_nonneg num)
    have hfar : (2 ^ 48 + 1 : ℤ) * ((2 ^ 24 + 1) * num) <
        2 ^ 100 * (b.lowError num den + b.highError num den) := by exact_mod_cast hfar
    linarith

/-- Moves one fraction towards the slope, and then the other, as long as the bound lets them. -/
def search (num den bound : Nat) : Nat → Bracket → Bracket
  | 0, b => b
  | fuel + 1, b =>
    let low := b.lowError num den
    let high := b.highError num den
    if bound < b.lowDen + b.highDen then b
    else if high ≤ low then
      let most := (bound - b.lowDen) / b.highDen
      let steps := if high = 0 then most else min (low / high) most
      search num den bound fuel { b with
        lowDen := b.lowDen + steps * b.highDen
        lowNum := b.lowNum + steps * b.highNum }
    else
      let most := (bound - b.highDen) / b.lowDen
      let steps := if low = 0 then most else min (high / low) most
      search num den bound fuel { b with
        highDen := b.highDen + steps * b.lowDen
        highNum := b.highNum + steps * b.lowNum }

/-- The power of two that brings a power of ten to between two and four. -/
def shift (e : ℤ) : ℤ := e * 217706 / 65536 - 1

/-- The numerator of a power of ten that was brought to between two and four. -/
def slopeNum (e : ℤ) : Nat := 10 ^ e.toNat * 2 ^ (-shift e).toNat

/-- The denominator of a power of ten that was brought to between two and four. -/
def slopeDen (e : ℤ) : Nat := 10 ^ (-e).toNat * 2 ^ (shift e).toNat

/-- The fractions around a power of ten. -/
def around (e : ℤ) : Bracket :=
  search (slopeNum e) (slopeDen e) (2 ^ 24 + 1) 64 ⟨1, slopeNum e / slopeDen e, 0, 1⟩

/-- **For every power of ten that occurs there are two such fractions.** -/
theorem separates_around : ∀ k : Nat, k < 92 →
    (around (k - 53)).Separates (k - 53) (slopeNum (k - 53)) (slopeDen (k - 53)) ∧
      2 * slopeDen (k - 53) ≤ slopeNum (k - 53) := by
  decide +kernel

/-! ## Decimals and midpoints -/

/-- A power of ten as a fraction between two and four and a power of two. -/
theorem ten_zpow_eq (e : ℤ) : (10 : ℚ) ^ e = slopeNum e / slopeDen e * 2 ^ shift e := by
  have htwo : (2 : ℚ) ^ (shift e).toNat ≠ 0 := by positivity
  have htwo' : (2 : ℚ) ^ (-shift e).toNat ≠ 0 := by positivity
  rw [Scientific.zpow_eq_div, Scientific.zpow_eq_div 2, slopeNum, slopeDen]
  push_cast
  field_simp

/-- A significand is doubled until it has twenty-four bits. -/
theorem exists_doubled (hpos : 0 < c) (hc : c ≤ 2 ^ 24 + 1) :
    ∃ j, 2 ^ 23 ≤ c * 2 ^ j ∧ c * 2 ^ j ≤ 2 ^ 24 + 1 := by
  have hlow := Nat.log2_self_le (Nat.ne_of_gt hpos)
  have hhigh := Nat.lt_log2_self (n := c)
  generalize c.log2 = l at hlow hhigh
  rcases Nat.lt_or_ge 23 l with hlarge | hsmall
  · have hpow : 2 ^ 24 ≤ 2 ^ l := Nat.pow_le_pow_right (by decide) hlarge
    exact ⟨0, by omega, by omega⟩
  · have hfull : 2 ^ l * 2 ^ (23 - l) = 2 ^ 23 := by
      rw [← Nat.pow_add, Nat.add_sub_cancel' hsmall]
    have hleast := Nat.mul_le_mul_right (2 ^ (23 - l)) hlow
    have hmost := Nat.mul_le_mul_right (2 ^ (23 - l)) hhigh.le
    rw [Nat.pow_succ, Nat.mul_right_comm, hfull] at hmost
    exact ⟨23 - l, by omega, by omega⟩

/-- A midpoint near a number of that size is a whole number: half a whole number would have too
many digits. -/
theorem nonneg_of_close {x : ℚ} {i : ℤ} {n : Nat} (hx : 2 ^ 24 ≤ x) (hn : n < 2 ^ 25)
    (hclose : 2 ^ 100 * |x - n * 2 ^ i| ≤ (2 ^ 48 + 1) * x) : 0 ≤ i := by
  by_contra hneg
  have hhalf : (2 : ℚ) ^ i ≤ 2 ^ (-1 : ℤ) := zpow_le_zpow_right₀ (by norm_num) (by omega)
  have hnq : (n : ℚ) ≤ 2 ^ 25 - 1 := by
    have hle : (n + 1 : ℚ) ≤ 2 ^ 25 := by exact_mod_cast hn
    linarith
  have hsmall : (n * 2 ^ i : ℚ) ≤ (2 ^ 25 - 1) * 2 ^ (-1 : ℤ) :=
    mul_le_mul hnq hhalf (by positivity) (by norm_num)
  have habs := le_abs_self (x - n * 2 ^ i)
  norm_num at hsmall hx hclose
  linarith

/-- What keeps significands away from midpoints, in terms of ratios. -/
theorem Separates.eq_or_exception_of_ratio (h : b.Separates e num den) (hden : 0 < den)
    (hsized : Sized c y)
    (hclose : 2 ^ 100 * |(c * num / den - y : ℚ)| ≤ (2 ^ 48 + 1) * (c * num / den)) :
    ((c * num / den : ℚ) = y ∧ e.natAbs ≤ 22) ∨ (e = -32 ∧ c = 14077062) := by
  have hdenq : (0 : ℚ) < den := Nat.cast_pos.mpr hden
  have hint : 2 ^ 100 * |(c * num - y * den : ℤ)| ≤ (2 ^ 48 + 1) * (c * num) := by
    rw [div_sub' hdenq.ne', abs_div, abs_of_pos hdenq, ← mul_div_assoc, ← mul_div_assoc,
      div_le_div_iff_of_pos_right hdenq, mul_comm (den : ℚ)] at hclose
    exact_mod_cast hclose
  refine (h.eq_or_exception hsized hint).imp_left fun ⟨heq, hsmall⟩ => ⟨?_, hsmall⟩
  rw [div_eq_iff hdenq.ne']
  exact_mod_cast heq

/-- **A decimal of few digits is not near a midpoint**, unless it is that midpoint: nearer than two
roundings to 64 bits reach. The power of ten is a small one then. There is one exception. -/
theorem separation {e s : ℤ} {c n : Nat} (hlow : -53 ≤ e) (hhigh : e ≤ 38) (hpos : 0 < c)
    (hc : c ≤ 2 ^ 24 + 1) (hn : n < 2 ^ 25)
    (hclose : 2 ^ 100 * |(c * 10 ^ e - n * 2 ^ s : ℚ)| ≤ (2 ^ 48 + 1) * (c * 10 ^ e)) :
    ((c * 10 ^ e : ℚ) = n * 2 ^ s ∧ e.natAbs ≤ 22) ∨
      (e = -32 ∧ (c = 7038531 ∨ c = 14077062)) := by
  obtain ⟨k, hk, hke⟩ : ∃ k : Nat, k < 92 ∧ (k - 53 : ℤ) = e := ⟨(e + 53).toNat, by omega, by omega⟩
  obtain ⟨hseparates, htwo⟩ := separates_around k hk
  rw [hke] at hseparates htwo
  have hden : 0 < slopeDen e :=
    Nat.mul_pos (Nat.pow_pos (by decide)) (Nat.pow_pos (by decide))
  have hdenq : (0 : ℚ) < slopeDen e := Nat.cast_pos.mpr hden
  -- the significand is doubled until it has twenty-four bits, the midpoint along with it
  obtain ⟨j, hleast, hmost⟩ := exists_doubled hpos hc
  have hunit : (0 : ℚ) < 2 ^ (shift e - j) := by positivity
  have hdecimal : (c * 10 ^ e : ℚ) =
      (c * 2 ^ j : Nat) * slopeNum e / slopeDen e * 2 ^ (shift e - j) := by
    rw [ten_zpow_eq, zpow_sub₀ two_ne_zero, zpow_natCast]
    push_cast
    field_simp
  have hmidpoint : (n * 2 ^ s : ℚ) = n * 2 ^ (s + j - shift e) * 2 ^ (shift e - j) := by
    rw [mul_assoc, ← zpow_add₀ two_ne_zero]
    ring_nf
  rw [hdecimal, hmidpoint, ← sub_mul, abs_mul, abs_of_pos hunit, ← mul_assoc, ← mul_assoc,
    mul_le_mul_iff_of_pos_right hunit] at hclose
  rw [hdecimal, hmidpoint, mul_left_inj' hunit.ne']
  have hlarge : (2 ^ 24 : ℚ) ≤ (c * 2 ^ j : Nat) * slopeNum e / slopeDen e := by
    rw [le_div_iff₀ hdenq]
    have hmul := Nat.mul_le_mul hleast htwo
    rw [← Nat.mul_assoc] at hmul
    exact_mod_cast hmul
  obtain ⟨m, hm⟩ := Int.eq_ofNat_of_zero_le (nonneg_of_close hlarge hn hclose)
  rw [hm, zpow_natCast] at hclose ⊢
  have hsized : Sized (c * 2 ^ j) (n * 2 ^ m) := by
    refine ⟨hleast, hmost, fun hy => ?_⟩
    obtain ⟨l, rfl⟩ : ∃ l, m = l + 1 := Nat.exists_eq_succ_of_ne_zero fun hzero => by
      rw [hzero] at hy
      omega
    rw [Nat.pow_succ, ← Nat.mul_assoc]
    exact Nat.mul_mod_left _ 2
  have hratio := hseparates.eq_or_exception_of_ratio hden hsized (by exact_mod_cast hclose)
  rw [Nat.cast_mul n, Nat.cast_pow, Nat.cast_ofNat] at hratio
  refine hratio.imp_right fun ⟨he, hexception⟩ => ⟨he, ?_⟩
  match j with
  | 0 => exact .inr (by omega)
  | 1 => exact .inl (by omega)
  | l + 2 =>
    have hfour : 4 * (c * 2 ^ l) = 14077062 := by
      rw [← hexception]
      ring
    omega

end Bracket

end Lakehouse
