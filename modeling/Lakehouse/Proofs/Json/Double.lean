import Lakehouse.Proofs.Json.Float
import Lakehouse.Proofs.Json.Number

/-!
# Numbers of 64 bits may be read as others

A 64-bit number is written in at most seventeen digits. It is always read as some number, but up to
three roundings on the way may make it another one. It is itself if the significand has at most
fifty-three bits and the power of ten is a number: then only one rounding is left.

* `Json.Double.isFinite_mul_below`, `Json.Double.isFinite_mul_top`: no decimal that is written is
  read as an infinity.
* `Json.Double.exists_reread`: every finite number of 64 bits is read as some number.
* `Json.Double.reread_eq_self`: which are read as themselves.
-/

namespace Lakehouse.Json.Double

open Number

variable {word : Nat} {s : Scientific}

/-! ## The decimal of a 64-bit number -/

/-- What is known about the decimal that is written for a 64-bit number. -/
structure IsShortest (word : Nat) (s : Scientific) : Prop extends Moderate s where
  reads_back : Width.double.nearest s.num s.den = word
  coefficient_pos : 0 < s.coefficient

theorem two_mul_largest_lt : 2 * Width.double.largest < 10 ^ (309 : ℤ) := by
  rw [largest_eq]
  calc 2 * ((2 ^ 53 - 1) * 2 ^ (971 : ℤ)) ≤ 2 ^ (54 : ℤ) * (2 : ℚ) ^ (971 : ℤ) := by
        rw [← mul_assoc]
        exact mul_le_mul_of_nonneg_right (by norm_num) (by positivity)
    _ = 4 * (2 ^ (93 : ℤ)) ^ (11 : ℤ) := by
        rw [← zpow_add₀ two_ne_zero, ← zpow_mul, show (4 : ℚ) = 2 ^ (2 : ℤ) by norm_num,
          ← zpow_add₀ two_ne_zero]
        rfl
    _ ≤ 4 * (10 ^ (28 : ℤ)) ^ (11 : ℤ) :=
        mul_le_mul_of_nonneg_left (zpow_le_zpow_left₀ (by decide) (by positivity) (by norm_num))
          (by norm_num)
    _ < 10 * (10 ^ (28 : ℤ)) ^ (11 : ℤ) := mul_lt_mul_of_pos_right (by norm_num) (by positivity)
    _ = 10 ^ (309 : ℤ) := by
        rw [← zpow_mul, ← zpow_one_add₀ (by norm_num)]
        rfl

/-- **The decimal that is written for a 64-bit number.** -/
theorem isShortest_shortest (tie : Tie) (hpos : 0 < word) (hword : word < Width.double.infinity) :
    IsShortest word (Width.double.shortest tie word) := by
  obtain ⟨t, hshortest, h⟩ := Width.exists_shortest tie hpos hword (n := 16) (by decide) (by decide)
  have hcoefficient := (Width.stripZeros_coefficient_le t).trans h.coefficient_le
  have hnumber := Width.stripZeros_number t
  have hleast : (2 : ℚ) ^ (-1074 : ℤ) ≤ 2 * t.number :=
    (Width.least_le_ratio hpos).trans (h.ratio_le hpos)
  have hmost : t.number ≤ 2 * Width.double.largest :=
    h.number_le.trans (mul_le_mul_of_nonneg_left
      (Width.ratio_mono (Nat.le_sub_one_of_lt hword)) zero_le_two)
  have hreads := h.nearest_stripZeros
  rw [hshortest]
  rw [← hnumber] at hleast hmost
  generalize Width.stripZeros t = s at hcoefficient hleast hmost hreads
  have hpos : 0 < s.coefficient := by
    refine Nat.pos_of_ne_zero fun hzero => ?_
    rw [Scientific.number, hzero, Nat.cast_zero, zero_mul, mul_zero] at hleast
    exact absurd hleast (not_le.mpr (by positivity))
  have hone : (1 : ℚ) ≤ s.coefficient := by exact_mod_cast hpos
  have hcoefficientq : (s.coefficient : ℚ) ≤ 10 ^ 17 := by exact_mod_cast hcoefficient
  refine ⟨⟨hcoefficient, ?_, ?_⟩, hreads, hpos⟩
  · have hle : (10 : ℚ) ^ (-1074 : ℤ) ≤ 10 ^ (18 + s.exponent) :=
      calc (10 : ℚ) ^ (-1074 : ℤ) ≤ 2 ^ (-1074 : ℤ) := by
            rw [zpow_neg, zpow_neg]
            exact inv_anti₀ (by positivity)
              (zpow_le_zpow_left₀ (by decide) zero_le_two (by norm_num))
        _ ≤ 2 * s.number := hleast
        _ ≤ 10 * (10 ^ 17 * 10 ^ s.exponent) :=
          mul_le_mul (by norm_num) (mul_le_mul_of_nonneg_right hcoefficientq (by positivity))
            (by unfold Scientific.number; positivity) (by norm_num)
        _ = 10 ^ (18 + s.exponent) := by
          rw [zpow_add₀ (by norm_num), ← mul_assoc]
          norm_num
    have := (zpow_le_zpow_iff_right₀ (by norm_num)).mp hle
    omega
  · have hless : (10 : ℚ) ^ s.exponent < 10 ^ (309 : ℤ) :=
      calc (10 : ℚ) ^ s.exponent ≤ s.number := le_mul_of_one_le_left (by positivity) hone
        _ ≤ 2 * Width.double.largest := hmost
        _ < 10 ^ (309 : ℤ) := two_mul_largest_lt
    have := (zpow_lt_zpow_iff_right₀ (by norm_num)).mp hless
    omega

/-! ## Reading -/

/-- Dividing never fails. -/
theorem exists_scale_of_neg {x : Binary64} {k : Int} (hk : k < 0) : ∃ y, scale x k = some y := by
  fun_induction scale x k with
  | case1 | case2 | case3 | case4 => omega
  | case5 => exact ⟨_, rfl⟩
  | case6 => exact ⟨_, rfl⟩
  | case7 x k _ hlow _ ih => exact ih (by omega)

/-- The three largest numbers are read as finite ones. -/
theorem isFinite_mul_top : ∀ minus : Bool, ∀ i < 3,
    let s := written (Width.double.shortest .even (Width.double.infinity - 1 - i))
    (mul (.ofRatio _ minus s.coefficient 1) (powerOfTen s.exponent.toNat)).isFinite = true := by
  decide +kernel

theorem le_of_error {q r : ℚ} (h : 2 ^ 53 * |r - q| ≤ q) : r ≤ (1 + 1 / 2 ^ 53) * q := by
  have habove := le_abs_self (r - q)
  linarith

/-- Below them there is room for two roundings up to the largest number. -/
theorem isFinite_mul_below {m : Nat} (minus : Bool) (h : IsShortest word s)
    (hword : word + 4 ≤ Width.double.infinity) (hm : s.exponent = m) :
    (mul (.ofRatio _ minus s.coefficient 1) (powerOfTen m)).isFinite = true := by
  have hratio : ∀ i < 2 ^ 52, Width.double.ratio (2045 * 2 ^ Width.double.fraction + (2 ^ 53 - 1 - i)) =
      (2 ^ 53 - 1 - i : Nat) * 2 ^ (971 : ℤ) := fun i hi =>
    Width.ratio_shift_add (Nat.le_trans (Nat.sub_le _ _) (by decide))
      (.inr (by change 2 ^ 52 ≤ 2 ^ 53 - 1 - i; omega))
  have hbound : s.number ≤ (2 ^ 53 - 7 / 2) * 2 ^ (971 : ℤ) := by
    have hmid := Width.two_mul_le_ratio s.den_pos h.reads_back
    have hinfinity : Width.double.infinity = 2045 * 2 ^ Width.double.fraction + 2 ^ 53 := rfl
    have hthis : Width.double.ratio word ≤ (2 ^ 53 - 1 - 3 : Nat) * 2 ^ (971 : ℤ) :=
      (Width.ratio_mono (by omega)).trans_eq (hratio 3 (by decide))
    have hnext : Width.double.ratio (word + 1) ≤ (2 ^ 53 - 1 - 2 : Nat) * 2 ^ (971 : ℤ) :=
      (Width.ratio_mono (by omega)).trans_eq (hratio 2 (by decide))
    rw [Scientific.num_div_den] at hmid
    rw [show ((2 ^ 53 - 1 - 3 : Nat) : ℚ) = 2 ^ 53 - 4 by norm_num] at hthis
    rw [show ((2 ^ 53 - 1 - 2 : Nat) : ℚ) = 2 ^ 53 - 3 by norm_num] at hnext
    linarith
  have hnumber : s.number = s.coefficient * 10 ^ m := by
    rw [Scientific.number, hm, zpow_natCast]
  have hone : (1 : ℚ) ≤ s.coefficient := by exact_mod_cast h.coefficient_pos
  have hten : (1 : ℚ) ≤ 10 ^ m := one_le_pow₀ (by norm_num)
  have hleast : (2 : ℚ) ^ (-1022 : ℤ) ≤ 1 := zpow_le_one_of_nonpos₀ one_le_two (by decide)
  have hlargest : (2 ^ 53 - 7 / 2) * 2 ^ (971 : ℤ) ≤ Width.double.largest := by
    rw [largest_eq]
    exact mul_le_mul_of_nonneg_right (by norm_num) (by positivity)
  have hcoefficient := le_of_error (error_double (isNearest_natural minus s.coefficient)
    (hleast.trans hone) ((le_mul_of_one_le_right (by positivity) hten).trans
      (hnumber.symm.trans_le (hbound.trans hlargest))))
  have hpower := le_of_error (error_double (isNearest_powerOfTen m) (hleast.trans hten)
    ((le_mul_of_one_le_left (by positivity) hone).trans
      (hnumber.symm.trans_le (hbound.trans hlargest))))
  refine (isNearest_mul _ _).finite infinity_pos ?_
  rw [largest_eq]
  calc (Binary.ofRatio .double minus s.coefficient 1).ratio * (powerOfTen m).ratio
      ≤ (1 + 1 / 2 ^ 53) * s.coefficient * ((1 + 1 / 2 ^ 53) * 10 ^ m) :=
        mul_le_mul hcoefficient hpower (Width.ratio_nonneg _ _) (by positivity)
    _ = (1 + 1 / 2 ^ 53) ^ 2 * s.number := by
        rw [hnumber]
        ring
    _ ≤ (1 + 1 / 2 ^ 53) ^ 2 * ((2 ^ 53 - 7 / 2) * 2 ^ (971 : ℤ)) :=
        mul_le_mul_of_nonneg_left hbound (by positivity)
    _ ≤ (2 ^ 53 - 1) * 2 ^ (971 : ℤ) := by
        rw [← mul_assoc]
        exact mul_le_mul_of_nonneg_right (by norm_num) (by positivity)

/-- The decimal of a 64-bit number has few digits and an exponent of the range. -/
theorem moderate_shortest {x : Binary64} (tie : Tie) (hx : x.isFinite = true) :
    Moderate (x.shortest tie) := by
  rcases x.shortest_cases tie with ⟨-, hshortest⟩ | ⟨hpos, hshortest⟩
  · rw [hshortest]
    exact ⟨by decide, by decide, by decide⟩
  · rw [hshortest]
    exact (isShortest_shortest tie hpos (of_decide_eq_true hx)).toModerate

/-- **A finite number of 64 bits is always read as some number.** -/
theorem exists_reread {x : Binary64} (hx : x.isFinite = true) : ∃ y, reread x = some y := by
  have hword : x.word < Width.double.infinity := of_decide_eq_true hx
  unfold reread
  rcases lt_or_ge (written (x.shortest .even)).exponent 0 with hneg | hpos
  · exact exists_scale_of_neg hneg
  · obtain ⟨m, hm⟩ := Int.eq_ofNat_of_zero_le hpos
    have hplain : written (x.shortest .even) = x.shortest .even := by
      unfold written at hpos ⊢
      split at hpos
      · change (0 : Int) ≤ -1 at hpos
        omega
      · rename_i hplace
        exact if_neg hplace
    obtain ⟨hword_pos, hshortest⟩ := (x.shortest_cases .even).resolve_left fun ⟨_, hshortest⟩ => by
      rw [hshortest] at hpos
      exact absurd hpos (by decide)
    have h := isShortest_shortest .even hword_pos hword
    have hfinite : (mul (.ofRatio _ x.isNegative (written (x.shortest .even)).coefficient 1)
        (powerOfTen m)).isFinite = true := by
      rcases Nat.lt_or_ge (x.word + 3) Width.double.infinity with hbelow | htop
      · rw [hplain, hshortest] at hm ⊢
        exact isFinite_mul_below x.isNegative h hbelow hm
      · obtain ⟨i, hi, htop⟩ : ∃ i < 3, x.word = Width.double.infinity - 1 - i :=
          ⟨Width.double.infinity - 1 - x.word, by omega, by omega⟩
        have hmul := isFinite_mul_top x.isNegative i hi
        rw [← htop, ← hshortest] at hmul
        simp only [hm, Int.toNat_natCast] at hmul
        exact hmul
    have hexponent := h.exponent_le
    rw [← hshortest, ← hplain, hm] at hexponent
    rw [hm]
    exact ⟨_, scale_natCast (by exact_mod_cast hexponent) hfinite⟩

/-- What a reader takes from the literal of a decimal is the decimal's number. -/
theorem written_number (s : Scientific) : (written s).number = s.number := by
  unfold written
  split
  · rename_i hwhole
    obtain ⟨m, hm⟩ := Int.eq_ofNat_of_zero_le hwhole.1
    rw [Scientific.number, Scientific.number, hm, Int.toNat_natCast, zpow_natCast]
    push_cast
    rw [pow_succ]
    field_simp
  · rfl

/-- The decimal of a finite number reads back. -/
theorem nearest_shortest {x : Binary64} (tie : Tie) (hx : x.isFinite = true) :
    Width.double.nearest (x.shortest tie).num (x.shortest tie).den = x.word := by
  rcases x.shortest_cases tie with ⟨hzero, hshortest⟩ | ⟨hpos, hshortest⟩
  · rw [hshortest, hzero]
    refine Width.nearest_of_eq_ratio (Scientific.den_pos _) ?_
    simp [Scientific.num]
  · rw [hshortest]
    exact (isShortest_shortest tie hpos (of_decide_eq_true hx)).reads_back

/-- **A number of 64 bits is read as itself when its decimal needs one rounding only.** -/
theorem reread_eq_self {x : Binary64} (hx : x.isFinite = true)
    (hbits : (written (x.shortest .even)).coefficient ≤ 2 ^ 53)
    (hpower : (written (x.shortest .even)).exponent.natAbs ≤ 22) : reread x = some x := by
  unfold reread
  have hnearest := nearest_shortest .even hx
  have hnumber := written_number (x.shortest .even)
  generalize written (x.shortest .even) = t at hbits hpower hnumber ⊢
  have hsize : (t.coefficient * 10 ^ t.exponent : ℚ) ≤ 2 ^ (1000 : ℤ) :=
    calc (t.coefficient * 10 ^ t.exponent : ℚ) ≤ 2 ^ 53 * 10 ^ (22 : ℤ) :=
          mul_le_mul (by exact_mod_cast hbits) (zpow_le_zpow_right₀ (by norm_num) (by omega))
            (by positivity) (by positivity)
      _ ≤ 2 ^ (130 : ℤ) := by norm_num
      _ ≤ 2 ^ (1000 : ℤ) := zpow_le_zpow_right₀ one_le_two (by decide)
  obtain ⟨y, hscale, hsign, hy⟩ :=
    exists_scale_nearest (ratio_natural x.isNegative hbits) hpower hsize
  have hratio : (t.coefficient * 10 ^ t.exponent : ℚ) =
      (x.shortest .even).num / (x.shortest .even).den :=
    hnumber.trans (Scientific.num_div_den _).symm
  rw [hratio] at hy
  have hword : y.word = x.word := by
    have hfinite : x.word < Width.double.infinity := of_decide_eq_true hx
    rw [hy.word_eq (Scientific.den_pos _), Width.round_eq_min, hnearest]
    omega
  rw [hscale, Binary.eq_ofWord y, hsign, hword, ← Binary.eq_ofWord]

end Lakehouse.Json.Double
