import Lakehouse.Proofs.Number.Binary
import Mathlib.Algebra.Order.Field.Rat
import Mathlib.Tactic.FieldSimp
import Mathlib.Tactic.Linarith
import Mathlib.Tactic.Positivity
import Mathlib.Tactic.Ring

/-!
# Rounding to binary floating-point numbers

The magnitudes of the words grow with the words, and a ratio is rounded to a word that is nearest to
it. So where two ratios are rounded to different words, they lie on different sides of the midpoint
between two neighbouring words.

* `Width.exists_steps`: a word and the next one are neighbouring multiples of a power of two.
* `Width.nearest`: the word nearest a ratio, were there no largest number.
* `Width.nearest_le_midpoint`, `Width.midpoint_le_nearest`: a ratio lies between the midpoints
  around its word.
* `Width.exists_midpoint`: what separates two ratios with different words.
* `Width.nearest_of_close`: a ratio near a number is rounded to it.
* `Width.nearest_error`: how far a rounded number is from the ratio.
* `Binary.IsNearest`: a number that is a ratio, rounded.
-/

namespace Lakehouse

/-! ## Whole numbers -/

theorem roundHalfEven_le (num : Nat) {den : Nat} (hden : 0 < den) :
    2 * (roundHalfEven num den * den) ≤ 2 * num + den := by
  have hsum := Nat.div_add_mod num den
  have hmod := Nat.mod_lt num hden
  unfold roundHalfEven
  simp only
  split
  · rw [Nat.mul_comm (num / den)]
    omega
  · rw [Nat.add_mul, Nat.mul_comm (num / den)]
    omega

theorem le_roundHalfEven (num : Nat) {den : Nat} (hden : 0 < den) :
    2 * num ≤ 2 * (roundHalfEven num den * den) + den := by
  have hsum := Nat.div_add_mod num den
  have hmod := Nat.mod_lt num hden
  unfold roundHalfEven
  simp only
  split
  · rw [Nat.mul_comm (num / den)]
    omega
  · rw [Nat.add_mul, Nat.mul_comm (num / den)]
    omega

/-- Rounding depends on the ratio only. -/
theorem roundHalfEven_mul_left {k : Nat} (hk : 0 < k) (num den : Nat) :
    roundHalfEven (k * num) (k * den) = roundHalfEven num den := by
  have hless : 2 * (k * (num % den)) < k * den ↔ 2 * (num % den) < den := by
    rw [Nat.mul_left_comm, Nat.mul_lt_mul_left hk]
  have htie : 2 * (k * (num % den)) = k * den ↔ 2 * (num % den) = den := by
    rw [Nat.mul_left_comm, Nat.mul_right_inj (Nat.ne_of_gt hk)]
  simp only [roundHalfEven, Nat.mul_div_mul_left _ _ hk, Nat.mul_mod_mul_left, hless, htie]

namespace Width

variable {w : Width} {word num den : Nat}

/-! ## Magnitudes of words -/

theorem unitsPerOne_pos (w : Width) : 0 < w.unitsPerOne := Nat.two_pow_pos _

/-- A word made of a shift and of a significand, with the carry of a full significand. -/
theorem units_shift_add {shift q : Nat} (hq : q ≤ 2 ^ (w.fraction + 1))
    (hnormal : shift = 0 ∨ 2 ^ w.fraction ≤ q) :
    w.units (shift * 2 ^ w.fraction + q) = q * 2 ^ shift := by
  have hpos : 0 < 2 ^ w.fraction := Nat.two_pow_pos _
  have hdouble : 2 ^ (w.fraction + 1) = 2 ^ w.fraction + 2 ^ w.fraction := by
    rw [Nat.pow_succ]
    omega
  unfold units
  simp only [Nat.mul_comm shift, Nat.mul_add_div hpos, Nat.mul_add_mod]
  rcases Nat.lt_or_ge q (2 ^ w.fraction) with hsmall | hlarge
  · have hshift : shift = 0 := hnormal.resolve_right (Nat.not_le.mpr hsmall)
    simp [hshift, Nat.div_eq_of_lt hsmall, Nat.mod_eq_of_lt hsmall]
  · rcases Nat.lt_or_eq_of_le hq with hless | hfull
    · have hdiv : q / 2 ^ w.fraction = 1 := by
        rw [Nat.div_eq_iff hpos]
        omega
      have hmod : q % 2 ^ w.fraction = q - 2 ^ w.fraction := by
        rw [Nat.mod_eq_sub_mod hlarge, Nat.mod_eq_of_lt (by omega)]
      rw [hdiv, hmod, if_neg (Nat.succ_ne_zero shift), Nat.add_sub_cancel,
        Nat.add_sub_cancel' hlarge]
    · have hdiv : q / 2 ^ w.fraction = 2 := by
        rw [Nat.div_eq_iff hpos]
        omega
      have hmod : q % 2 ^ w.fraction = 0 := by
        rw [hfull, hdouble, Nat.add_mod_right, Nat.mod_self]
      rw [hdiv, hmod, if_neg (by omega), hfull, Nat.add_zero, Nat.pow_succ, Nat.mul_assoc,
        ← Nat.pow_succ']
      rfl

/-- **A word and the next one are neighbouring multiples of a power of two.** -/
theorem exists_steps (w : Width) (word : Nat) : ∃ shift q, q < 2 ^ (w.fraction + 1) ∧
    w.units word = q * 2 ^ shift ∧ w.units (word + 1) = (q + 1) * 2 ^ shift := by
  have hpos : 0 < 2 ^ w.fraction := Nat.two_pow_pos _
  have hdouble : 2 ^ (w.fraction + 1) = 2 ^ w.fraction + 2 ^ w.fraction := by
    rw [Nat.pow_succ]
    omega
  have hrest : word % 2 ^ w.fraction < 2 ^ w.fraction := Nat.mod_lt word hpos
  have hword := Nat.div_add_mod word (2 ^ w.fraction)
  obtain ⟨shift, q, hq, hnormal, hsplit⟩ : ∃ shift q, q < 2 ^ (w.fraction + 1) ∧
      (shift = 0 ∨ 2 ^ w.fraction ≤ q) ∧ word = shift * 2 ^ w.fraction + q := by
    cases hfield : word / 2 ^ w.fraction with
    | zero =>
      rw [hfield] at hword
      exact ⟨0, word % 2 ^ w.fraction, by omega, .inl rfl, by omega⟩
    | succ field =>
      rw [hfield, Nat.mul_succ, Nat.mul_comm] at hword
      exact ⟨field, 2 ^ w.fraction + word % 2 ^ w.fraction, by omega, .inr (by omega), by omega⟩
  refine ⟨shift, q, hq, ?_, ?_⟩
  · rw [hsplit, units_shift_add (Nat.le_of_lt hq) hnormal]
  · rw [hsplit, Nat.add_assoc, units_shift_add hq (hnormal.imp_right (Nat.le_trans · q.le_succ))]

theorem units_lt_succ (w : Width) (word : Nat) : w.units word < w.units (word + 1) := by
  obtain ⟨shift, q, -, hword, hnext⟩ := w.exists_steps word
  rw [hword, hnext]
  exact Nat.mul_lt_mul_of_pos_right q.lt_succ_self (Nat.two_pow_pos shift)

/-- **Magnitudes grow with the words.** -/
theorem units_strictMono (w : Width) : StrictMono w.units :=
  strictMono_nat_of_lt_succ w.units_lt_succ

theorem units_lt_succ_rat (w : Width) (word : Nat) : (w.units word : ℚ) < w.units (word + 1) :=
  Nat.cast_lt.mpr (w.units_lt_succ word)

theorem units_mono_rat {word' : Nat} (h : word ≤ word') : (w.units word : ℚ) ≤ w.units word' :=
  Nat.cast_le.mpr (w.units_strictMono.monotone h)

/-! ## The nearest word -/

/-- The word nearest a ratio, were there no largest number. -/
def nearest (w : Width) (num den : Nat) : Nat :=
  let units := num * w.unitsPerOne
  let shift := Nat.log2 (units / den) - w.fraction
  shift * 2 ^ w.fraction + roundHalfEven units (den * 2 ^ shift)

theorem round_eq_min (w : Width) (num den : Nat) :
    w.round num den = min (w.nearest num den) w.infinity := rfl

/-- The magnitude of a ratio, counted in the least positive number. -/
def magnitude (w : Width) (num den : Nat) : ℚ := num * w.unitsPerOne / den

/-- Rounding depends on the ratio only. -/
theorem nearest_congr {num' den' : Nat} (hden : 0 < den) (hden' : 0 < den')
    (h : num * den' = num' * den) : w.nearest num den = w.nearest num' den' := by
  have hscaled : ∀ num den {k : Nat}, 0 < k →
      w.nearest (k * num) (k * den) = w.nearest num den := by
    intro num den k hk
    simp only [nearest, Nat.mul_assoc, Nat.mul_div_mul_left _ _ hk, roundHalfEven_mul_left hk]
  rw [← hscaled num den hden', ← hscaled num' den' hden, Nat.mul_comm den', h, Nat.mul_comm num',
    Nat.mul_comm den']

/-- The shift brings a ratio below the next power of two, and keeps it above its own. -/
theorem shift_bounds (hden : 0 < den) (units fraction : Nat) :
    let unit := den * 2 ^ (Nat.log2 (units / den) - fraction)
    units < 2 ^ (fraction + 1) * unit ∧
      (Nat.log2 (units / den) - fraction = 0 ∨ 2 ^ fraction * unit ≤ units) := by
  intro unit
  have hbelow : units / den < 2 ^ (Nat.log2 (units / den) + 1) := Nat.lt_log2_self
  have hupper : units < 2 ^ (Nat.log2 (units / den) + 1) * den :=
    (Nat.div_lt_iff_lt_mul hden).mp hbelow
  have hmul : ∀ k shift, 2 ^ k * (den * 2 ^ shift) = 2 ^ (k + shift) * den := fun k shift => by
    rw [Nat.pow_add, Nat.mul_right_comm, Nat.mul_assoc]
  rcases Nat.le_total (Nat.log2 (units / den)) fraction with hsmall | hlarge
  · have hzero : Nat.log2 (units / den) - fraction = 0 := Nat.sub_eq_zero_of_le hsmall
    refine ⟨Nat.lt_of_lt_of_le hupper ?_, .inl hzero⟩
    rw [hmul]
    exact Nat.mul_le_mul_right den (Nat.pow_le_pow_right Nat.zero_lt_two (by omega))
  · constructor
    · rw [hmul]
      exact Nat.lt_of_lt_of_eq hupper (congrArg (2 ^ · * den) (by omega))
    · rcases Nat.eq_zero_or_pos (units / den) with hzero | hpos
      · rw [hzero] at hlarge ⊢
        exact .inl (Nat.zero_sub fraction)
      · refine .inr ?_
        rw [hmul, Nat.add_sub_cancel' hlarge]
        exact (Nat.le_div_iff_mul_le hden).mp (Nat.log2_self_le (Nat.ne_of_gt hpos))

/-- A ratio is rounded to a multiple of a power of two that is nearest to it. -/
theorem nearest_spec (w : Width) (num : Nat) (hden : 0 < den) : ∃ shift q : Nat, w.nearest num den =
      shift * 2 ^ w.fraction + q ∧ q ≤ 2 ^ (w.fraction + 1) ∧
      (shift = 0 ∨ 2 ^ w.fraction ≤ q ∧ (2 ^ w.fraction * 2 ^ shift : ℚ) ≤ w.magnitude num den) ∧
      2 * w.magnitude num den ≤ (2 * q + 1) * 2 ^ shift ∧
      (2 * q : ℚ) * 2 ^ shift ≤ 2 * w.magnitude num den + 2 ^ shift := by
  simp only [nearest, magnitude]
  generalize hunits : num * w.unitsPerOne = units
  have hcast : (num * w.unitsPerOne : ℚ) = units := by
    rw [← hunits]
    push_cast
    rfl
  obtain ⟨hless, hnormal⟩ := shift_bounds hden units w.fraction
  have hdenq : (0 : ℚ) < den := Nat.cast_pos.mpr hden
  generalize Nat.log2 (units / den) - w.fraction = shift at hless hnormal ⊢
  have hunit : 0 < den * 2 ^ shift := Nat.mul_pos hden (Nat.two_pow_pos shift)
  have hle := roundHalfEven_le units hunit
  have hge := le_roundHalfEven units hunit
  generalize roundHalfEven units (den * 2 ^ shift) = q at hle hge ⊢
  rw [hcast]
  refine ⟨shift, q, rfl, ?_, hnormal.imp_right fun hnormal => ⟨?_, ?_⟩, ?_, ?_⟩
  · by_contra hq
    have hmul := Nat.mul_le_mul_right (den * 2 ^ shift) (Nat.succ_le_of_lt (Nat.lt_of_not_le hq))
    rw [Nat.succ_mul] at hmul
    omega
  · by_contra hq
    have hmul := Nat.mul_le_mul_right (den * 2 ^ shift) (Nat.succ_le_of_lt (Nat.lt_of_not_le hq))
    rw [Nat.succ_mul] at hmul
    omega
  · rw [le_div_iff₀ hdenq]
    exact_mod_cast hnormal.trans_eq' (by ring)
  · rw [← mul_div_assoc, div_le_iff₀ hdenq]
    exact_mod_cast hge.trans_eq (by ring)
  · have hle : ((2 * (q * (den * 2 ^ shift)) : Nat) : ℚ) ≤ (2 * units + den * 2 ^ shift : Nat) :=
      Nat.cast_le.mpr hle
    push_cast at hle
    rw [← mul_div_assoc, div_add' _ _ _ hdenq.ne', le_div_iff₀ hdenq]
    linarith

/-- **A ratio is not above the midpoint behind its word.** -/
theorem nearest_le_midpoint (w : Width) (num : Nat) (hden : 0 < den) :
    2 * w.magnitude num den ≤ w.units (w.nearest num den) + w.units (w.nearest num den + 1) := by
  obtain ⟨shift, q, hword, hq, hnormal, hbelow, -⟩ := nearest_spec w num hden
  have hunits : w.units (w.nearest num den) = q * 2 ^ shift :=
    hword ▸ units_shift_add hq (hnormal.imp_right And.left)
  obtain ⟨step, k, hk, hthis, hnext⟩ := w.exists_steps (w.nearest num den)
  have hsame : k * 2 ^ step = q * 2 ^ shift := hthis.symm.trans hunits
  -- the step to the next word is not smaller, because a full significand is followed by a larger one
  have hstep : 2 ^ shift ≤ 2 ^ step := by
    by_contra hlarger
    have hless : step < shift := (Nat.pow_lt_pow_iff_right (by omega)).mp (Nat.lt_of_not_le hlarger)
    have hdouble : 2 * 2 ^ step ≤ 2 ^ shift := by
      rw [← Nat.pow_succ']
      exact Nat.pow_le_pow_right Nat.zero_lt_two hless
    have hfull : 2 ^ w.fraction ≤ q := (hnormal.resolve_left (by omega)).1
    have hlow : 2 ^ (w.fraction + 1) * 2 ^ step ≤ q * 2 ^ shift := by
      rw [Nat.pow_succ, Nat.mul_assoc]
      exact Nat.mul_le_mul hfull hdouble
    have hhigh := Nat.mul_lt_mul_of_pos_right hk (Nat.two_pow_pos step)
    omega
  have hsameq : (k * 2 ^ step : ℚ) = q * 2 ^ shift := by exact_mod_cast hsame
  have hstepq : (2 ^ shift : ℚ) ≤ 2 ^ step := by exact_mod_cast hstep
  rw [hthis, hnext]
  push_cast
  linarith

/-- **A ratio is not below the midpoint in front of its word.** -/
theorem midpoint_le_nearest {previous : Nat} (hden : 0 < den)
    (h : w.nearest num den = previous + 1) :
    (w.units previous + w.units (previous + 1) : ℚ) ≤ 2 * w.magnitude num den := by
  obtain ⟨shift, q, hword, hq, hnormal, -, habove⟩ := nearest_spec w num hden
  have hunits : w.units (previous + 1) = q * 2 ^ shift := by
    rw [← h, hword, units_shift_add hq (hnormal.imp_right And.left)]
  have hgrow := w.units_lt_succ_rat previous
  by_cases hfirst : shift ≠ 0 ∧ q = 2 ^ w.fraction
  · -- the first word of its power of two: the ratio is not below it
    have hfull := (hnormal.resolve_left hfirst.1).2
    have hunitsq : (w.units (previous + 1) : ℚ) = 2 ^ w.fraction * 2 ^ shift := by
      rw [hunits, hfirst.2]
      push_cast
      rfl
    linarith
  · have hnormal' : shift = 0 ∨ 2 ^ w.fraction < q := by
      rcases hnormal with hzero | hfull
      · exact .inl hzero
      · by_cases hzero : shift = 0
        · exact .inl hzero
        · exact .inr (Nat.lt_of_le_of_ne hfull.1 fun heq => hfirst ⟨hzero, heq.symm⟩)
    have hpos : q ≠ 0 := by
      rintro rfl
      rcases hnormal' with rfl | hfull
      · rw [h] at hword
        simp at hword
      · cases hfull
    obtain ⟨k, rfl⟩ := Nat.exists_eq_succ_of_ne_zero hpos
    have hprevious : previous = shift * 2 ^ w.fraction + k := by omega
    have hbelow : w.units previous = k * 2 ^ shift := by
      rw [hprevious, units_shift_add (by omega) (hnormal'.imp_right Nat.le_of_lt_succ)]
    rw [hunits, hbelow]
    push_cast at habove ⊢
    linarith

/-- **Two ratios that are rounded to different words are separated by a midpoint.** -/
theorem exists_midpoint {num' den' : Nat} (hden : 0 < den) (hden' : 0 < den')
    (h : w.nearest num den < w.nearest num' den') :
    ∃ word, 2 * w.magnitude num den ≤ w.units word + w.units (word + 1) ∧
      (w.units word + w.units (word + 1) : ℚ) ≤ 2 * w.magnitude num' den' := by
  obtain ⟨previous, hprevious⟩ := Nat.exists_eq_succ_of_ne_zero (Nat.ne_zero_of_lt h)
  have hle : w.nearest num den ≤ previous := by omega
  have hmid := midpoint_le_nearest hden' hprevious
  have hfirst := units_mono_rat (w := w) hle
  have hnext := units_mono_rat (w := w) (Nat.succ_le_succ hle)
  exact ⟨_, nearest_le_midpoint w num hden, by linarith⟩

theorem magnitude_eq_iff {num' den' : Nat} (hden : 0 < den) (hden' : 0 < den') :
    w.magnitude num den = w.magnitude num' den' ↔ num * den' = num' * den := by
  have hdenq : (den : ℚ) ≠ 0 := Nat.cast_ne_zero.mpr (Nat.ne_of_gt hden)
  have hdenq' : (den' : ℚ) ≠ 0 := Nat.cast_ne_zero.mpr (Nat.ne_of_gt hden')
  have honeq : (w.unitsPerOne : ℚ) ≠ 0 := Nat.cast_ne_zero.mpr (Nat.ne_of_gt w.unitsPerOne_pos)
  unfold magnitude
  rw [div_eq_div_iff hdenq hdenq', mul_right_comm, mul_right_comm (num' : ℚ),
    mul_left_inj' honeq]
  exact_mod_cast Iff.rfl

/-- **Rounding keeps the order.** -/
theorem nearest_mono {num' den' : Nat} (hden : 0 < den) (hden' : 0 < den')
    (h : w.magnitude num den ≤ w.magnitude num' den') :
    w.nearest num den ≤ w.nearest num' den' := by
  by_contra hless
  obtain ⟨word, hlow, hhigh⟩ := exists_midpoint hden' hden (Nat.lt_of_not_le hless)
  have heq : w.magnitude num den = w.magnitude num' den' := le_antisymm h (by linarith)
  have hsame := nearest_congr hden hden' ((magnitude_eq_iff hden hden').mp heq) (w := w)
  omega

/-- A ratio strictly between the midpoints around a word is rounded to it. -/
theorem nearest_eq_of_between (hden : 0 < den)
    (hbehind : 2 * w.magnitude num den < w.units word + w.units (word + 1))
    (hfront : ∀ previous, word = previous + 1 →
      (w.units previous + w.units (previous + 1) : ℚ) < 2 * w.magnitude num den) :
    w.nearest num den = word := by
  refine Nat.le_antisymm ?_ ?_
  · by_contra hless
    obtain ⟨previous, hprevious⟩ := Nat.exists_eq_succ_of_ne_zero
      (Nat.ne_zero_of_lt (Nat.lt_of_not_le hless))
    have hmid := midpoint_le_nearest hden hprevious
    have hle : word ≤ previous := by omega
    have hthis := units_mono_rat (w := w) hle
    have hnext := units_mono_rat (w := w) (Nat.succ_le_succ hle)
    linarith
  · by_contra hless
    obtain ⟨previous, rfl⟩ := Nat.exists_eq_succ_of_ne_zero
      (Nat.ne_zero_of_lt (Nat.lt_of_not_le hless))
    have hmid := nearest_le_midpoint w num hden
    have hle : w.nearest num den ≤ previous := by omega
    have hthis := units_mono_rat (w := w) hle
    have hnext := units_mono_rat (w := w) (Nat.succ_le_succ hle)
    have hgap := hfront previous rfl
    linarith

/-- A step between two words is not below one part in `2 ^ (fraction + 1)` of the larger. -/
theorem units_succ_le (w : Width) (word : Nat) : (w.units (word + 1) : ℚ) ≤
    2 ^ (w.fraction + 1) * (w.units (word + 1) - w.units word) := by
  obtain ⟨shift, q, hq, hthis, hnext⟩ := w.exists_steps word
  have hqq : (q + 1 : ℚ) ≤ 2 ^ (w.fraction + 1) := by exact_mod_cast hq
  have hpos : (0 : ℚ) < 2 ^ shift := by positivity
  rw [hthis, hnext]
  push_cast
  nlinarith

/-- **A ratio near a number is rounded to it**: nearer than one part in `2 ^ (fraction + 2)`. -/
theorem nearest_of_close (hden : 0 < den)
    (h : 2 ^ (w.fraction + 2) * |w.magnitude num den - w.units word| < w.units word) :
    w.nearest num den = word := by
  have hpow : (2 : ℚ) ^ (w.fraction + 2) = 2 * 2 ^ (w.fraction + 1) := by ring
  have hpos : (0 : ℚ) < 2 ^ (w.fraction + 1) := by positivity
  rw [hpow] at h
  have habove := le_abs_self (w.magnitude num den - w.units word)
  have hbelow := neg_abs_le (w.magnitude num den - w.units word)
  generalize |w.magnitude num den - w.units word| = distance at h habove hbelow
  refine nearest_eq_of_between hden ?_ ?_
  · have hstep := w.units_succ_le word
    have hgrow := w.units_lt_succ_rat word
    have hgap : 2 * distance < w.units (word + 1) - w.units word :=
      lt_of_mul_lt_mul_left (by linarith) hpos.le
    linarith
  · rintro previous rfl
    have hstep := w.units_succ_le previous
    have hgap : 2 * distance < w.units (previous + 1) - w.units previous :=
      lt_of_mul_lt_mul_left (by linarith) hpos.le
    linarith

/-- A number is rounded to itself. -/
theorem nearest_of_eq (hden : 0 < den) (h : w.magnitude num den = w.units word) :
    w.nearest num den = word := by
  refine nearest_eq_of_between hden ?_ ?_
  · have hgrow := w.units_lt_succ_rat word
    linarith
  · rintro previous rfl
    have hgrow := w.units_lt_succ_rat previous
    linarith

/-- Every multiple of a power of two by a significand is the magnitude of a word. -/
theorem exists_units_eq (w : Width) {significand : Nat} (shift : Nat)
    (h : significand ≤ 2 ^ (w.fraction + 1)) : ∃ word, w.units word = significand * 2 ^ shift := by
  induction shift generalizing significand with
  | zero => exact ⟨0 * 2 ^ w.fraction + significand, units_shift_add h (.inl rfl)⟩
  | succ shift ih =>
    rcases Nat.lt_or_ge significand (2 ^ w.fraction) with hsmall | hlarge
    · obtain ⟨word, hword⟩ := ih (show 2 * significand ≤ 2 ^ (w.fraction + 1) by
        rw [Nat.pow_succ]
        omega)
      refine ⟨word, hword.trans ?_⟩
      rw [Nat.pow_succ', Nat.mul_comm 2, Nat.mul_assoc]
    · exact ⟨_, units_shift_add h (.inr hlarge)⟩

/-- **A ratio that is such a multiple is rounded to itself.** -/
theorem units_nearest_of_multiple {significand shift : Nat} (hden : 0 < den)
    (hbound : significand ≤ 2 ^ (w.fraction + 1))
    (h : w.magnitude num den = significand * 2 ^ shift) :
    (w.units (w.nearest num den) : ℚ) = w.magnitude num den := by
  obtain ⟨word, hword⟩ := w.exists_units_eq shift hbound
  have heq : w.magnitude num den = w.units word := by
    rw [h, hword]
    push_cast
    rfl
  rw [nearest_of_eq hden heq, heq]

/-- **The error of rounding**: at most one part in `2 ^ (fraction + 1)` of a ratio that is not
below the least normal number. -/
theorem nearest_error (hden : 0 < den) (h : 2 ^ w.fraction ≤ w.magnitude num den) :
    2 ^ (w.fraction + 1) * |w.units (w.nearest num den) - w.magnitude num den| ≤
      w.magnitude num den := by
  obtain ⟨shift, q, hword, hq, hnormal, hbelow, habove⟩ := nearest_spec w num hden
  have hunits : (w.units (w.nearest num den) : ℚ) = q * 2 ^ shift := by
    rw [hword, units_shift_add hq (hnormal.imp_right And.left)]
    push_cast
    rfl
  have hdistance : |w.units (w.nearest num den) - w.magnitude num den| ≤ 2 ^ shift / 2 := by
    rw [hunits, abs_le]
    constructor <;> linarith
  have hfloor : (2 ^ w.fraction * 2 ^ shift : ℚ) ≤ w.magnitude num den := by
    rcases hnormal with rfl | hnormal
    · simpa using h
    · exact hnormal.2
  have hpos : (0 : ℚ) < 2 ^ w.fraction := by positivity
  have hpow : (2 : ℚ) ^ (w.fraction + 1) = 2 * 2 ^ w.fraction := by ring
  rw [hpow]
  nlinarith

/-! ## Ratios -/

/-- The ratio that a finite word stands for. -/
def ratio (w : Width) (word : Nat) : ℚ := w.units word / w.unitsPerOne

theorem unitsPerOne_pos_rat (w : Width) : (0 : ℚ) < w.unitsPerOne :=
  Nat.cast_pos.mpr w.unitsPerOne_pos

/-- The least positive number is one part in two to this power. -/
def places (w : Width) : Nat := 2 ^ (w.exponent - 1) - 2 + w.fraction

theorem unitsPerOne_eq_zpow (w : Width) : (w.unitsPerOne : ℚ) = 2 ^ (w.places : ℤ) := by
  rw [unitsPerOne, Nat.cast_pow, Nat.cast_ofNat, zpow_natCast, places]

/-- The ratio of a word that is made of a shift and of a significand. -/
theorem ratio_shift_add {shift q : Nat} (hq : q ≤ 2 ^ (w.fraction + 1))
    (hnormal : shift = 0 ∨ 2 ^ w.fraction ≤ q) :
    w.ratio (shift * 2 ^ w.fraction + q) = q * 2 ^ ((shift : ℤ) - w.places) := by
  rw [ratio, units_shift_add hq hnormal, unitsPerOne_eq_zpow, zpow_sub₀ two_ne_zero, zpow_natCast,
    zpow_natCast, Nat.cast_mul, Nat.cast_pow, Nat.cast_ofNat, mul_div_assoc]

theorem units_eq_ratio_mul (w : Width) (word : Nat) :
    (w.units word : ℚ) = w.ratio word * w.unitsPerOne :=
  (div_mul_cancel₀ _ w.unitsPerOne_pos_rat.ne').symm

theorem magnitude_eq_div_mul (w : Width) (num den : Nat) :
    w.magnitude num den = num / den * w.unitsPerOne :=
  mul_div_right_comm _ _ _

@[simp] theorem ratio_zero (w : Width) : w.ratio 0 = 0 := by
  simp [ratio, units]

theorem ratio_nonneg (w : Width) (word : Nat) : 0 ≤ w.ratio word :=
  div_nonneg (Nat.cast_nonneg _) (Nat.cast_nonneg _)

theorem ratio_mono {word' : Nat} (h : word ≤ word') : w.ratio word ≤ w.ratio word' :=
  div_le_div_of_nonneg_right (units_mono_rat h) w.unitsPerOne_pos_rat.le

/-- A number other than zero is not below the least positive one. -/
theorem least_le_ratio (hpos : 0 < word) : (2 : ℚ) ^ (-(w.places : ℤ)) ≤ w.ratio word := by
  have hone : w.ratio (0 * 2 ^ w.fraction + 1) = (1 : Nat) * 2 ^ (((0 : Nat) : ℤ) - w.places) :=
    ratio_shift_add (Nat.one_le_two_pow) (.inl rfl)
  rw [Nat.zero_mul, Nat.zero_add, Nat.cast_one, one_mul, Nat.cast_zero, zero_sub] at hone
  exact hone.symm.trans_le (ratio_mono hpos)

/-- A ratio near a number is rounded to it. -/
theorem nearest_of_close_ratio (hden : 0 < den)
    (h : 2 ^ (w.fraction + 2) * |num / den - w.ratio word| < w.ratio word) :
    w.nearest num den = word := by
  refine nearest_of_close hden ?_
  rw [magnitude_eq_div_mul, units_eq_ratio_mul, ← sub_mul, abs_mul,
    abs_of_pos w.unitsPerOne_pos_rat, ← mul_assoc]
  exact mul_lt_mul_of_pos_right h w.unitsPerOne_pos_rat

theorem nearest_of_eq_ratio (hden : 0 < den) (h : (num / den : ℚ) = w.ratio word) :
    w.nearest num den = word :=
  nearest_of_eq hden (by rw [magnitude_eq_div_mul, h, ← units_eq_ratio_mul])

theorem nearest_congr_ratio {num' den' : Nat} (hden : 0 < den) (hden' : 0 < den')
    (h : (num / den : ℚ) = num' / den') : w.nearest num den = w.nearest num' den' := by
  rw [div_eq_div_iff (Nat.cast_ne_zero.mpr (Nat.ne_of_gt hden))
    (Nat.cast_ne_zero.mpr (Nat.ne_of_gt hden'))] at h
  exact nearest_congr hden hden' (by exact_mod_cast h)

/-- A ratio that is not above a number is not rounded to a larger one. -/
theorem nearest_le_of_ratio_le (hden : 0 < den) (h : (num / den : ℚ) ≤ w.ratio word) :
    w.nearest num den ≤ word := by
  have hself : w.nearest (w.units word) w.unitsPerOne = word :=
    nearest_of_eq_ratio w.unitsPerOne_pos rfl
  rw [← hself]
  refine nearest_mono hden w.unitsPerOne_pos ?_
  rw [magnitude_eq_div_mul, magnitude_eq_div_mul]
  exact mul_le_mul_of_nonneg_right h w.unitsPerOne_pos_rat.le

/-- A ratio that is rounded to a number other than zero is at least half of it. -/
theorem ratio_le_two_mul (hden : 0 < den) (hpos : 0 < word) (h : w.nearest num den = word) :
    w.ratio word ≤ 2 * (num / den) := by
  obtain ⟨previous, rfl⟩ := Nat.exists_eq_succ_of_ne_zero (Nat.ne_of_gt hpos)
  have hmid := midpoint_le_nearest hden h
  have hfirst : (0 : ℚ) ≤ w.units previous := Nat.cast_nonneg _
  rw [magnitude_eq_div_mul] at hmid
  rw [ratio, div_le_iff₀ w.unitsPerOne_pos_rat]
  linarith

/-- A ratio is not above the midpoint behind its word. -/
theorem two_mul_le_ratio (hden : 0 < den) (h : w.nearest num den = word) :
    2 * (num / den : ℚ) ≤ w.ratio word + w.ratio (word + 1) := by
  have hmid := nearest_le_midpoint w num hden
  rw [h, magnitude_eq_div_mul, units_eq_ratio_mul, units_eq_ratio_mul, ← add_mul, ← mul_assoc] at hmid
  exact le_of_mul_le_mul_right hmid w.unitsPerOne_pos_rat

/-- **The error of rounding** a ratio that is not below the least normal number. -/
theorem ratio_nearest_error (hden : 0 < den) (h : (2 ^ w.fraction / w.unitsPerOne : ℚ) ≤ num / den) :
    2 ^ (w.fraction + 1) * |w.ratio (w.nearest num den) - num / den| ≤ num / den := by
  rw [div_le_iff₀ w.unitsPerOne_pos_rat, ← magnitude_eq_div_mul] at h
  have herror := nearest_error hden h
  rw [magnitude_eq_div_mul, units_eq_ratio_mul, ← sub_mul, abs_mul,
    abs_of_pos w.unitsPerOne_pos_rat, ← mul_assoc] at herror
  exact le_of_mul_le_mul_right herror w.unitsPerOne_pos_rat

/-- **Two ratios that are rounded to different words are separated by a midpoint**: a power of two
times a number of one bit more than a significand. -/
theorem exists_midpoint_ratio {num' den' : Nat} (hden : 0 < den) (hden' : 0 < den')
    (h : w.nearest num den < w.nearest num' den') : ∃ (n : Nat) (s : ℤ), n < 2 ^ (w.fraction + 2) ∧
      (num / den : ℚ) ≤ n * 2 ^ s ∧ (n * 2 ^ s : ℚ) ≤ num' / den' := by
  obtain ⟨word, hlow, hhigh⟩ := exists_midpoint hden hden' h
  obtain ⟨shift, q, hq, hthis, hnext⟩ := w.exists_steps word
  have hmid : (w.units word + w.units (word + 1) : ℚ) =
      2 * ((2 * q + 1 : Nat) * 2 ^ ((shift : ℤ) - w.places - 1) * w.unitsPerOne) := by
    rw [hthis, hnext, unitsPerOne_eq_zpow, zpow_sub₀ two_ne_zero, zpow_sub₀ two_ne_zero,
      zpow_natCast, zpow_natCast]
    push_cast
    field_simp
    ring
  rw [hmid, magnitude_eq_div_mul] at hlow hhigh
  refine ⟨2 * q + 1, (shift : ℤ) - w.places - 1, ?_, ?_, ?_⟩
  · rw [Nat.pow_succ]
    omega
  · exact le_of_mul_le_mul_right (by linarith) w.unitsPerOne_pos_rat
  · exact le_of_mul_le_mul_right (by linarith) w.unitsPerOne_pos_rat

/-- Of two ratios that are rounded to different words, the first is not farther from such a midpoint
than from the second. -/
theorem exists_midpoint_near {num' den' : Nat} (hden : 0 < den) (hden' : 0 < den')
    (h : w.nearest num' den' ≠ w.nearest num den) : ∃ (n : Nat) (s : ℤ), n < 2 ^ (w.fraction + 2) ∧
      |(num / den - n * 2 ^ s : ℚ)| ≤ |(num' / den' - num / den : ℚ)| := by
  rcases Nat.lt_or_gt_of_ne h with hless | hless
  · obtain ⟨n, s, hn, hlow, hhigh⟩ := exists_midpoint_ratio hden' hden hless
    refine ⟨n, s, hn, ?_⟩
    rw [abs_of_nonneg (by linarith), abs_sub_comm, abs_of_nonneg (by linarith)]
    linarith
  · obtain ⟨n, s, hn, hlow, hhigh⟩ := exists_midpoint_ratio hden hden' hless
    refine ⟨n, s, hn, ?_⟩
    rw [abs_sub_comm, abs_of_nonneg (by linarith), abs_of_nonneg (by linarith)]
    linarith

/-- A ratio of few significant bits is rounded to itself. -/
theorem ratio_nearest_of_multiple {significand : Nat} {s : ℤ} (hden : 0 < den)
    (hbound : significand ≤ 2 ^ (w.fraction + 1)) (hs : -(w.places : ℤ) ≤ s)
    (h : (num / den : ℚ) = significand * 2 ^ s) :
    w.ratio (w.nearest num den) = num / den := by
  obtain ⟨shift, hshift⟩ := Int.eq_ofNat_of_zero_le (a := s + w.places) (by omega)
  have hmagnitude : w.magnitude num den = significand * 2 ^ shift := by
    rw [magnitude_eq_div_mul, h, unitsPerOne_eq_zpow, ← zpow_natCast (2 : ℚ) shift, ← hshift,
      zpow_add₀ two_ne_zero, mul_assoc]
  have hself := units_nearest_of_multiple hden hbound hmagnitude
  rw [units_eq_ratio_mul, magnitude_eq_div_mul] at hself
  exact mul_right_cancel₀ w.unitsPerOne_pos_rat.ne' hself

/-- The largest finite number. -/
def largest (w : Width) : ℚ := w.ratio (w.infinity - 1)

/-- A ratio that is not above the largest number is rounded to a finite one. -/
theorem round_eq_nearest (hden : 0 < den) (hinfinity : 0 < w.infinity)
    (h : (num / den : ℚ) ≤ w.largest) :
    w.round num den = w.nearest num den ∧ w.nearest num den < w.infinity := by
  have hle := nearest_le_of_ratio_le hden h
  rw [round_eq_min]
  omega

end Width

/-! ## Numbers -/

namespace Binary

variable {w : Width} {x : Binary w} {q : ℚ}

/-- The ratio that a finite number stands for, without its sign. -/
def ratio (x : Binary w) : ℚ := w.ratio x.word

/-- Whether a number is a ratio, rounded. -/
def IsNearest (x : Binary w) (q : ℚ) : Prop :=
  ∃ num den : Nat, 0 < den ∧ (num / den : ℚ) = q ∧ x.word = w.round num den

theorem isNearest_ofRatio (negative : Bool) (num : Nat) {den : Nat} (hden : 0 < den) :
    (ofRatio w negative num den).IsNearest (num / den) :=
  ⟨num, den, hden, rfl, word_ofRatio w negative num den⟩

theorem IsNearest.word_eq {num den : Nat} (h : x.IsNearest (num / den)) (hden : 0 < den) :
    x.word = w.round num den := by
  obtain ⟨num', den', hden', hratio, hword⟩ := h
  rw [hword, Width.round_eq_min, Width.round_eq_min, Width.nearest_congr_ratio hden' hden hratio]

theorem IsNearest.finite (h : x.IsNearest q) (hinfinity : 0 < w.infinity) (hhigh : q ≤ w.largest) :
    x.isFinite = true := by
  obtain ⟨num, den, hden, rfl, hword⟩ := h
  obtain ⟨hround, hfinite⟩ := Width.round_eq_nearest hden hinfinity hhigh
  exact decide_eq_true (hword.trans hround ▸ hfinite)

/-- **The error of a rounded number** that is neither too small nor too large. -/
theorem IsNearest.error (h : x.IsNearest q) (hinfinity : 0 < w.infinity)
    (hlow : (2 ^ w.fraction / w.unitsPerOne : ℚ) ≤ q) (hhigh : q ≤ w.largest) :
    2 ^ (w.fraction + 1) * |x.ratio - q| ≤ q := by
  obtain ⟨num, den, hden, rfl, hword⟩ := h
  rw [ratio, hword, (Width.round_eq_nearest hden hinfinity hhigh).1]
  exact Width.ratio_nearest_error hden hlow

/-- **A number of few significant bits is not changed by rounding.** -/
theorem IsNearest.ratio_eq {significand : Nat} {s : ℤ} (h : x.IsNearest q)
    (hinfinity : 0 < w.infinity) (hbound : significand ≤ 2 ^ (w.fraction + 1))
    (hs : -(w.places : ℤ) ≤ s) (hq : q = significand * 2 ^ s) (hhigh : q ≤ w.largest) :
    x.ratio = q := by
  obtain ⟨num, den, hden, rfl, hword⟩ := h
  rw [ratio, hword, (Width.round_eq_nearest hden hinfinity hhigh).1]
  exact Width.ratio_nearest_of_multiple hden hbound hs hq

/-- A number whose word is nearest a ratio is the ratio, rounded under its sign. -/
theorem ofRatio_eq_self {num den : Nat} (hfinite : x.isFinite = true)
    (h : w.nearest num den = x.word) : ofRatio w x.isNegative num den = x := by
  have hword : x.word < w.infinity := of_decide_eq_true hfinite
  unfold ofRatio
  rw [Width.round_eq_min, h, Nat.min_eq_left (Nat.le_of_lt hword), ← eq_ofWord]

end Binary

end Lakehouse
