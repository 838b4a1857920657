import Lakehouse.Json.Number
import Lakehouse.Proofs.Number.Separation

/-!
# Reading a decimal in floating-point arithmetic

A decimal is read by rounding its significand, rounding a power of ten, and rounding their product
or quotient. For a significand that is a number the result is at most two roundings away from the
decimal.

* `Json.Number.ratio_natural`, `Json.Number.ratio_powerOfTen`: what is a number without rounding.
* `Json.Number.IsDrifted`: how near the decimal two roundings stay.
* `Json.Number.exists_scale_drifted`: a decimal is read that near.
* `Json.Number.exists_scale_nearest`: with a small power of ten it is rounded only once.
-/

namespace Lakehouse.Json.Number

variable {x y : Binary64} {minus : Bool}

/-! ## The range of 64 bits -/

theorem infinity_pos : 0 < Width.double.infinity := by decide

theorem places_eq : (Width.double.places : ℤ) = 1074 := rfl

/-- The least normal number. -/
theorem least_eq : (2 ^ Width.double.fraction / Width.double.unitsPerOne : ℚ) = 2 ^ (-1022 : ℤ) := by
  rw [Width.unitsPerOne_eq_zpow, places_eq, ← zpow_natCast, ← zpow_sub₀ two_ne_zero]
  rfl

/-- The largest number. -/
theorem largest_eq : Width.double.largest = (2 ^ 53 - 1) * 2 ^ (971 : ℤ) := by
  have hword : Width.double.infinity - 1 = 2045 * 2 ^ Width.double.fraction + (2 ^ 53 - 1) := rfl
  rw [Width.largest, hword, Width.ratio_shift_add (by decide) (by decide), places_eq]
  norm_num

theorem le_largest {q : ℚ} (h : q ≤ 2 ^ (1000 : ℤ)) : q ≤ Width.double.largest := by
  have hsplit : (2 : ℚ) ^ (1000 : ℤ) = 2 ^ (29 : ℤ) * 2 ^ (971 : ℤ) := by
    rw [← zpow_add₀ two_ne_zero]
    rfl
  rw [largest_eq]
  refine h.trans (hsplit.trans_le (mul_le_mul_of_nonneg_right ?_ (by positivity)))
  norm_num

/-- The error of a number of 64 bits. -/
theorem error_double {q : ℚ} (h : x.IsNearest q) (hlow : (2 : ℚ) ^ (-1022 : ℤ) ≤ q)
    (hhigh : q ≤ Width.double.largest) : 2 ^ 53 * |x.ratio - q| ≤ q :=
  h.error infinity_pos (least_eq.trans_le hlow) hhigh

/-! ## Single operations -/

theorem isNearest_mul (x y : Binary64) : (mul x y).IsNearest (x.ratio * y.ratio) := by
  have hone := Width.double.unitsPerOne_pos
  have hnearest := Binary.isNearest_ofRatio (w := .double) (x.isNegative != y.isNegative)
    (x.units * y.units) (Nat.mul_pos hone hone)
  rwa [Nat.cast_mul, Nat.cast_mul, mul_div_mul_comm] at hnearest

theorem isNearest_div (x : Binary64) (hy : 0 < y.ratio) : (div x y).IsNearest (x.ratio / y.ratio) := by
  have hone := Width.double.unitsPerOne_pos_rat
  have hunits : 0 < y.units := Nat.pos_of_ne_zero fun hzero => by
    have hratio : y.ratio = y.units / Width.double.unitsPerOne := rfl
    rw [hratio, hzero, Nat.cast_zero, zero_div] at hy
    exact lt_irrefl 0 hy
  have hnearest := Binary.isNearest_ofRatio (w := .double) (x.isNegative != y.isNegative)
    x.units hunits
  rwa [← div_div_div_cancel_right₀ hone.ne'] at hnearest

theorem isNearest_natural (minus : Bool) (n : Nat) :
    (Binary.ofRatio .double minus n 1).IsNearest n := by
  have hnearest := Binary.isNearest_ofRatio (w := .double) minus n Nat.one_pos
  rwa [Nat.cast_one, div_one] at hnearest

theorem isNearest_powerOfTen (k : Nat) : (powerOfTen k).IsNearest (10 ^ k) := by
  have hnearest := isNearest_natural false (10 ^ k)
  rwa [Nat.cast_pow, Nat.cast_ofNat] at hnearest

@[simp] theorem isNegative_mul_powerOfTen (k : Nat) :
    (mul x (powerOfTen k)).isNegative = x.isNegative := by
  simp [mul, powerOfTen]

@[simp] theorem isNegative_div_powerOfTen (k : Nat) :
    (div x (powerOfTen k)).isNegative = x.isNegative := by
  simp [div, powerOfTen]

/-- A significand of at most fifty-three bits is a number. -/
theorem ratio_natural {n : Nat} (minus : Bool) (hn : n ≤ 2 ^ 53) :
    (Binary.ofRatio .double minus n 1).ratio = n := by
  refine (isNearest_natural minus n).ratio_eq (s := 0) infinity_pos hn (by decide) (by simp)
    (le_largest ?_)
  calc (n : ℚ) ≤ (2 ^ 53 : Nat) := Nat.cast_le.mpr hn
    _ = 2 ^ (53 : ℤ) := by norm_num
    _ ≤ 2 ^ (1000 : ℤ) := zpow_le_zpow_right₀ one_le_two (by decide)

/-- A small power of ten is a number. -/
theorem ratio_powerOfTen {k : Nat} (hk : k ≤ 22) : (powerOfTen k).ratio = 10 ^ k := by
  have hbound : 5 ^ k ≤ 2 ^ 53 := (Nat.pow_le_pow_right (by decide) hk).trans (by decide)
  have hsplit : (10 : ℚ) ^ k = (5 ^ k : Nat) * 2 ^ (k : ℤ) := by
    rw [zpow_natCast, Nat.cast_pow, Nat.cast_ofNat, ← mul_pow]
    norm_num
  refine (isNearest_powerOfTen k).ratio_eq infinity_pos hbound (by omega) hsplit (le_largest ?_)
  calc (10 : ℚ) ^ k ≤ 10 ^ 22 := pow_le_pow_right₀ (by norm_num) hk
    _ ≤ 2 ^ (80 : ℤ) := by norm_num
    _ ≤ 2 ^ (1000 : ℤ) := zpow_le_zpow_right₀ one_le_two (by decide)

/-- The error of a power of ten. -/
theorem ratio_powerOfTen_error {k : Nat} (hk : k ≤ 250) :
    2 ^ 53 * |(powerOfTen k).ratio - 10 ^ k| ≤ 10 ^ k := by
  refine error_double (isNearest_powerOfTen k) ?_ (le_largest ?_)
  · calc (2 : ℚ) ^ (-1022 : ℤ) ≤ 2 ^ (0 : ℤ) := zpow_le_zpow_right₀ one_le_two (by decide)
      _ = 1 := zpow_zero 2
      _ ≤ 10 ^ k := one_le_pow₀ (by norm_num)
  · calc (10 : ℚ) ^ k ≤ (2 ^ 4) ^ k := pow_le_pow_left₀ (by norm_num) (by norm_num) k
      _ = 2 ^ ((4 * k : Nat) : ℤ) := by rw [zpow_natCast, pow_mul]
      _ ≤ 2 ^ (1000 : ℤ) := zpow_le_zpow_right₀ one_le_two (by omega)

/-! ## Scaling by a power of ten -/

theorem scale_natCast {k : Nat} (hk : k ≤ maxPower)
    (h : (mul x (powerOfTen k)).isFinite = true) : scale x k = some (mul x (powerOfTen k)) := by
  rw [scale, if_pos (Int.natCast_nonneg k), if_pos (by exact_mod_cast hk), Int.toNat_natCast]
  exact if_pos h

theorem scale_neg {k : Nat} (hpos : 0 < k) (hk : k ≤ maxPower) :
    scale x (-k) = some (div x (powerOfTen k)) := by
  rw [scale, if_neg (by omega), if_pos (by omega), Int.neg_neg, Int.toNat_natCast]

/-- Whether a number came from a ratio by two roundings. -/
structure IsDrifted (x : Binary64) (q : ℚ) : Prop where
  finite : x.isFinite = true
  near : 2 ^ 100 * |x.ratio - q| ≤ (2 ^ 48 + 1) * q

/-- A product or quotient of a rounded power of ten is rounded once more. -/
theorem IsDrifted.of_isNearest {q r : ℚ} (h : x.IsNearest r) (hnear : (2 ^ 53 - 1) * |r - q| ≤ q)
    (hlow : (2 : ℚ) ^ (-1000 : ℤ) ≤ q) (hhigh : q ≤ 2 ^ (999 : ℤ)) : IsDrifted x q := by
  have hpos : (0 : ℚ) < q := lt_of_lt_of_le (by positivity) hlow
  have hdistance := abs_nonneg (r - q)
  have habove := le_abs_self (r - q)
  have hbelow := neg_abs_le (r - q)
  have hhalf : q / 2 ≤ r := by linarith
  have hdouble : r ≤ 2 * q := by linarith
  have hleast : (2 : ℚ) ^ (-1022 : ℤ) ≤ r :=
    calc (2 : ℚ) ^ (-1022 : ℤ) ≤ 2 ^ (-1000 - 1 : ℤ) := zpow_le_zpow_right₀ one_le_two (by decide)
      _ = 2 ^ (-1000 : ℤ) / 2 := zpow_sub_one₀ two_ne_zero _
      _ ≤ q / 2 := div_le_div_of_nonneg_right hlow zero_le_two
      _ ≤ r := hhalf
  have hmost : r ≤ 2 ^ (1000 : ℤ) :=
    calc r ≤ 2 * q := hdouble
      _ ≤ 2 * 2 ^ (999 : ℤ) := mul_le_mul_of_nonneg_left hhigh zero_le_two
      _ = 2 ^ (1 + 999 : ℤ) := (zpow_one_add₀ two_ne_zero _).symm
  have herror := error_double h hleast (le_largest hmost)
  have htriangle : |x.ratio - q| ≤ |x.ratio - r| + |r - q| := abs_sub_le _ _ _
  exact ⟨h.finite infinity_pos (le_largest hmost), by linarith⟩

theorem mul_zpow_neg (n : Nat) (m : Nat) : (n * 10 ^ (-(m : ℤ)) : ℚ) = n / 10 ^ m := by
  rw [zpow_neg, zpow_natCast, div_eq_mul_inv]

/-- A power of ten in the place of a rounded one as a factor. -/
theorem near_mul {n p t : ℚ} (hn : 0 ≤ n) (herror : 2 ^ 53 * |t - p| ≤ p) :
    (2 ^ 53 - 1) * |n * t - n * p| ≤ n * p := by
  have hscaled := mul_le_mul_of_nonneg_left herror hn
  have hdistance : |n * t - n * p| = n * |t - p| := by
    rw [← mul_sub, abs_mul, abs_of_nonneg hn]
  have hnonneg := mul_nonneg hn (abs_nonneg (t - p))
  rw [hdistance]
  linarith

/-- A power of ten in the place of a rounded one as a divisor. -/
theorem near_div {n p t : ℚ} (hn : 0 ≤ n) (hp : 0 < p) (herror : 2 ^ 53 * |t - p| ≤ p) :
    0 < t ∧ (2 ^ 53 - 1) * |n / t - n / p| ≤ n / p := by
  have hbelow := neg_abs_le (t - p)
  have hless : (2 ^ 53 - 1) * |t - p| ≤ t := by linarith
  have ht : 0 < t := by linarith
  have hdistance : |n / t - n / p| = n / p * (|t - p| / t) := by
    rw [← abs_of_pos ht, ← abs_div, abs_of_pos ht, ← abs_of_nonneg (div_nonneg hn hp.le), ← abs_mul,
      abs_of_nonneg (div_nonneg hn hp.le), abs_sub_comm]
    congr 1
    field_simp
  refine ⟨ht, ?_⟩
  rw [hdistance, mul_left_comm]
  refine mul_le_of_le_one_right (div_nonneg hn hp.le) ?_
  rw [← mul_div_assoc, div_le_one ht]
  exact hless

/-- **A decimal whose significand is a number is read with two roundings.** -/
theorem exists_scale_drifted {n : Nat} {k : ℤ} {minus : Bool}
    (hnatural : (Binary.ofRatio .double minus n 1).ratio = n) (hk : k.natAbs ≤ 250)
    (hlow : (2 : ℚ) ^ (-1000 : ℤ) ≤ n * 10 ^ k) (hhigh : (n * 10 ^ k : ℚ) ≤ 2 ^ (999 : ℤ)) :
    ∃ y, scale (.ofRatio _ minus n 1) k = some y ∧ y.isNegative = minus ∧
      IsDrifted y (n * 10 ^ k) := by
  have hnonneg : (0 : ℚ) ≤ n := Nat.cast_nonneg n
  have hnegative : (Binary.ofRatio .double minus n 1).isNegative = minus := by simp
  generalize Binary.ofRatio .double minus n 1 = x at hnatural hnegative
  rcases lt_or_ge k 0 with hneg | hpos
  · obtain ⟨m, rfl⟩ : ∃ m : Nat, k = -(m : ℤ) := ⟨(-k).toNat, by omega⟩
    obtain ⟨hpos, hnear⟩ := near_div hnonneg (by positivity)
      (ratio_powerOfTen_error (k := m) (by omega))
    rw [mul_zpow_neg] at hlow hhigh ⊢
    rw [← hnatural] at hnear hlow hhigh ⊢
    exact ⟨_, scale_neg (by omega) (Nat.le_trans (by omega) (by decide : 250 ≤ maxPower)),
      by simpa using hnegative, .of_isNearest (isNearest_div x hpos) hnear hlow hhigh⟩
  · obtain ⟨m, rfl⟩ := Int.eq_ofNat_of_zero_le hpos
    have hnear := near_mul hnonneg (ratio_powerOfTen_error (k := m) (by omega))
    rw [zpow_natCast] at hlow hhigh ⊢
    rw [← hnatural] at hnear hlow hhigh ⊢
    have hdrifted := IsDrifted.of_isNearest (isNearest_mul x (powerOfTen m)) hnear hlow hhigh
    exact ⟨_, scale_natCast (Nat.le_trans (by omega) (by decide : 250 ≤ maxPower)) hdrifted.finite,
      by simpa using hnegative, hdrifted⟩

/-- **With a small power of ten the decimal is rounded only once.** -/
theorem exists_scale_nearest {n : Nat} {k : ℤ} {minus : Bool}
    (hnatural : (Binary.ofRatio .double minus n 1).ratio = n) (hk : k.natAbs ≤ 22)
    (hhigh : (n * 10 ^ k : ℚ) ≤ 2 ^ (1000 : ℤ)) :
    ∃ y, scale (.ofRatio _ minus n 1) k = some y ∧ y.isNegative = minus ∧
      y.IsNearest (n * 10 ^ k) := by
  have hnegative : (Binary.ofRatio .double minus n 1).isNegative = minus := by simp
  generalize Binary.ofRatio .double minus n 1 = x at hnatural hnegative
  rcases lt_or_ge k 0 with hneg | hpos
  · obtain ⟨m, rfl⟩ : ∃ m : Nat, k = -(m : ℤ) := ⟨(-k).toNat, by omega⟩
    have hpower := ratio_powerOfTen (k := m) (by omega)
    have hnearest := isNearest_div x (y := powerOfTen m) (hpower ▸ by positivity)
    rw [hpower, hnatural] at hnearest
    rw [mul_zpow_neg]
    exact ⟨_, scale_neg (by omega) (Nat.le_trans (by omega) (by decide : 22 ≤ maxPower)),
      by simpa using hnegative, hnearest⟩
  · obtain ⟨m, rfl⟩ := Int.eq_ofNat_of_zero_le hpos
    have hnearest := isNearest_mul x (powerOfTen m)
    rw [ratio_powerOfTen (by omega), hnatural] at hnearest
    rw [zpow_natCast] at hhigh ⊢
    exact ⟨_, scale_natCast (Nat.le_trans (by omega) (by decide : 22 ≤ maxPower))
      (hnearest.finite infinity_pos (le_largest hhigh)), by simpa using hnegative, hnearest⟩

end Lakehouse.Json.Number
