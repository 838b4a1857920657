import Lakehouse.Proofs.Json.Float
import Lakehouse.Proofs.Json.Number

/-!
# Numbers of 32 bits survive

A 32-bit number is written in at most nine digits and read as a 64-bit number, which is then rounded
to 32 bits. The two roundings on the way do not matter. A decimal of many digits is so near the
number that they do not lead to another one; a decimal of few digits keeps away from the midpoints
between the numbers.

* `Json.Single.IsShortest`: what is known about the decimal that is written.
* `Json.Single.IsShortest.nearest_of_isDrifted`: two roundings lead to the same number of 32 bits.
* `Json.Single.nearest_of_exception`: so they do in the one case that this leaves open.
* `Json.Single.exists_reread`: every finite number of 32 bits is read from its literal.
-/

namespace Lakehouse.Json.Single

open Number

variable {word : Nat} {s : Scientific}

/-! ## The decimal of a 32-bit number -/

/-- What is known about the decimal that is written for a 32-bit number. -/
structure IsShortest (word : Nat) (s : Scientific) : Prop where
  reads_back : Width.single.nearest s.num s.den = word
  coefficient_le : s.coefficient ≤ 10 ^ 9
  low : (2 : ℚ) ^ (-150 : ℤ) ≤ s.number
  high : s.number ≤ 2 ^ (129 : ℤ)
  near : s.coefficient ≤ 2 ^ 24 + 1 ∨
    (2 ^ 25 + 3) * |s.number - Width.single.ratio word| ≤ Width.single.ratio word

theorem ratio_le_largest (hword : word < Width.single.infinity) :
    Width.single.ratio word ≤ 2 ^ (128 : ℤ) := by
  have hlargest : Width.single.ratio (Width.single.infinity - 1) = (2 ^ 24 - 1) * 2 ^ (104 : ℤ) := by
    have hword : Width.single.infinity - 1 = 253 * 2 ^ Width.single.fraction + (2 ^ 24 - 1) := rfl
    rw [hword, Width.ratio_shift_add (by decide) (by decide)]
    norm_num [Width.places, Width.single]
  refine (Width.ratio_mono (Nat.le_sub_one_of_lt hword)).trans (hlargest.trans_le ?_)
  norm_num

/-- **The decimal that is written for a 32-bit number.** -/
theorem isShortest_shortest (tie : Tie) (hpos : 0 < word) (hword : word < Width.single.infinity) :
    IsShortest word (Width.single.shortest tie word) := by
  obtain ⟨t, hshortest, h⟩ :=
    Width.exists_shortest tie hpos hword (n := 8) (by decide) (by decide)
  rw [hshortest]
  have hnumber := Width.stripZeros_number t
  have hleast : (2 : ℚ) ^ (-149 : ℤ) ≤ Width.single.ratio word := Width.least_le_ratio hpos
  have hmost := ratio_le_largest hword
  have hhalf := h.ratio_le hpos
  have hdouble := h.number_le
  refine ⟨h.nearest_stripZeros, (Width.stripZeros_coefficient_le t).trans h.coefficient_le, ?_, ?_,
    ?_⟩
  · rw [hnumber]
    calc (2 : ℚ) ^ (-150 : ℤ) = 2 ^ (-149 : ℤ) / 2 := zpow_sub_one₀ two_ne_zero (-149)
      _ ≤ t.number := (div_le_iff₀' two_pos).mpr (hleast.trans hhalf)
  · rw [hnumber]
    calc t.number ≤ 2 * 2 ^ (128 : ℤ) := by linarith
      _ = 2 ^ (129 : ℤ) := (zpow_one_add₀ two_ne_zero 128).symm
  · rcases Nat.lt_or_ge t.coefficient (2 ^ 24 + 2) with hfew | hmany
    · exact .inl ((Width.stripZeros_coefficient_le t).trans (Nat.le_of_lt_succ hfew))
    · have hstep := h.nearest hmany
      have habove := le_abs_self (t.number - Width.single.ratio word)
      have hmanyq : (2 ^ 24 + 2 : ℚ) ≤ t.coefficient := by exact_mod_cast hmany
      have hsize : (2 ^ 24 + 2) * (10 : ℚ) ^ t.exponent ≤ t.number :=
        mul_le_mul_of_nonneg_right hmanyq (by positivity)
      rw [hnumber]
      exact .inr (by linarith)

namespace IsShortest

theorem coefficient_pos (h : IsShortest word s) : 0 < s.coefficient := by
  refine Nat.pos_of_ne_zero fun hzero => ?_
  have hlow := h.low
  rw [Scientific.number, hzero, Nat.cast_zero, zero_mul] at hlow
  exact absurd hlow (not_le.mpr (by positivity))

theorem exponent_le (h : IsShortest word s) : s.exponent ≤ 38 := by
  have hone : (1 : ℚ) ≤ s.coefficient := by exact_mod_cast h.coefficient_pos
  have hless : (10 : ℚ) ^ s.exponent < 10 ^ (39 : ℤ) :=
    calc (10 : ℚ) ^ s.exponent ≤ s.number := le_mul_of_one_le_left (by positivity) hone
      _ ≤ 2 ^ (129 : ℤ) := h.high
      _ < 10 ^ (39 : ℤ) := by norm_num
  have := (zpow_lt_zpow_iff_right₀ (by norm_num)).mp hless
  omega

theorem le_exponent (h : IsShortest word s) {m : Nat} (hm : s.coefficient ≤ 10 ^ m) :
    -46 < s.exponent + m := by
  have hmq : (s.coefficient : ℚ) ≤ 10 ^ m := by exact_mod_cast hm
  refine (zpow_lt_zpow_iff_right₀ (a := (10 : ℚ)) (by norm_num)).mp ?_
  calc (10 : ℚ) ^ (-46 : ℤ) < 2 ^ (-150 : ℤ) := by norm_num
    _ ≤ s.number := h.low
    _ ≤ 10 ^ m * 10 ^ s.exponent := mul_le_mul_of_nonneg_right hmq (by positivity)
    _ = 10 ^ (s.exponent + m) := by
      rw [zpow_add₀ (by norm_num), zpow_natCast, mul_comm]

/-- A number that is the decimal is rounded to what the decimal is rounded to. -/
theorem nearest_of_eq (h : IsShortest word s) {y : Binary64} (hy : y.ratio = s.number) :
    Width.single.nearest y.units Width.double.unitsPerOne = word := by
  rw [← h.reads_back]
  exact Width.nearest_congr_ratio Width.double.unitsPerOne_pos s.den_pos
    (hy.trans s.num_div_den.symm)

/-- **Two roundings to 64 bits do not lead to another number of 32 bits**, but for one exception. -/
theorem nearest_of_isDrifted (h : IsShortest word s) {y : Binary64} (hy : IsDrifted y s.number)
    (hexact : s.exponent.natAbs ≤ 22 → y.IsNearest s.number) :
    Width.single.nearest y.units Width.double.unitsPerOne = word ∨
      s.exponent = -32 ∧ (s.coefficient = 7038531 ∨ s.coefficient = 14077062) := by
  have hone := Width.double.unitsPerOne_pos
  have hdrift := hy.near
  have hratio : (y.units / Width.double.unitsPerOne : ℚ) = y.ratio := rfl
  rcases h.near with hfew | hclose
  · by_contra hcontra
    obtain ⟨hother, hexception⟩ := not_or.mp hcontra
    -- a midpoint is between the decimal and the number that was read
    obtain ⟨n, t, hn, hbetween⟩ : ∃ (n : Nat) (t : ℤ), n < 2 ^ 25 ∧
        |(s.number - n * 2 ^ t : ℚ)| ≤ |y.ratio - s.number| := by
      have hmidpoint := Width.exists_midpoint_near s.den_pos hone (h.reads_back.symm ▸ hother)
      rwa [hratio, Scientific.num_div_den] at hmidpoint
    have hnear : 2 ^ 100 * |(s.number - n * 2 ^ t : ℚ)| ≤ (2 ^ 48 + 1) * s.number :=
      (mul_le_mul_of_nonneg_left hbetween (by norm_num)).trans hdrift
    have hexponent := h.le_exponent (m := 8) (by omega)
    rcases Bracket.separation (by omega) h.exponent_le h.coefficient_pos hfew hn hnear with
      ⟨hmid, hsmall⟩ | hfound
    · -- the decimal is the midpoint: it has few bits, so it is read as it is
      refine hother (h.nearest_of_eq ((hexact hsmall).ratio_eq infinity_pos
        (hn.le.trans (by decide)) ?_ hmid
        (le_largest (h.high.trans (zpow_le_zpow_right₀ one_le_two (by decide))))))
      have hless : (2 : ℚ) ^ (-150 : ℤ) < 2 ^ (25 + t) :=
        calc (2 : ℚ) ^ (-150 : ℤ) ≤ s.number := h.low
          _ = n * 2 ^ t := hmid
          _ < 2 ^ 25 * 2 ^ t := mul_lt_mul_of_pos_right (by exact_mod_cast hn) (by positivity)
          _ = 2 ^ (25 + t) := by
            rw [zpow_add₀ two_ne_zero]
            rfl
      have := (zpow_lt_zpow_iff_right₀ one_lt_two).mp hless
      rw [places_eq]
      omega
    · exact hexception hfound
  · refine .inl (Width.nearest_of_close_ratio hone ?_)
    rw [hratio]
    have htriangle : |y.ratio - Width.single.ratio word| ≤
        |y.ratio - s.number| + |s.number - Width.single.ratio word| := abs_sub_le _ _ _
    have habove := le_abs_self (s.number - Width.single.ratio word)
    have hdistance := abs_nonneg (s.number - Width.single.ratio word)
    have hpos : (0 : ℚ) < s.number := lt_of_lt_of_le (by positivity) h.low
    have hbits : Width.single.fraction + 2 = 25 := rfl
    rw [hbits]
    linarith

end IsShortest

/-- The exception is read by itself: it does not lead to another number either. -/
theorem nearest_of_exception : ∀ c ∈ [7038531, 14077062],
    Width.single.nearest
      (Width.double.units (Width.double.round (Width.double.units (Width.double.round c 1))
        (Width.double.units (Width.double.round (10 ^ 32) 1)))) Width.double.unitsPerOne =
      Width.single.nearest c (10 ^ 32) := by
  decide +kernel

/-! ## Reading -/

/-- A finite number of 64 bits is rounded to 32 bits under its sign. -/
theorem convert_eq_of_nearest {x : Binary32} {y : Binary64} (hsign : y.isNegative = x.isNegative)
    (hy : y.isFinite = true) (hx : x.isFinite = true)
    (h : Width.single.nearest y.units Width.double.unitsPerOne = x.word) : y.convert .single = x := by
  have hword : y.word < Width.double.infinity := of_decide_eq_true hy
  have hnan : y.isNaN = false := decide_eq_false (Nat.not_lt.mpr (Nat.le_of_lt hword))
  have hinfinite : y.isInfinite = false := by
    unfold Binary.isInfinite
    rw [beq_eq_false_iff_ne]
    exact Nat.ne_of_lt hword
  rw [Binary.convert, hnan, hinfinite, hsign]
  exact Binary.ofRatio_eq_self hx h

/-- Digits that stand in place without places behind the point, and their number of bits. -/
theorem mul_pow_five_le {c m : Nat} (hc : c ≤ 10 ^ 9)
    (hplace : m + (Numeral.digits c).length ≤ 16) : c * 5 ^ (m + 1) ≤ 2 ^ 53 := by
  rcases Nat.lt_or_ge m 8 with hfew | hmany
  · calc c * 5 ^ (m + 1) ≤ 10 ^ 9 * 5 ^ 8 :=
          Nat.mul_le_mul hc (Nat.pow_le_pow_right (by decide) (by omega))
      _ ≤ 2 ^ 53 := by decide
  · have hlength := Numeral.length_digits_pos c
    have hbits : ∀ m < 16, 8 ≤ m → 10 ^ (16 - m) * 5 ^ (m + 1) ≤ 2 ^ 53 := by decide
    calc c * 5 ^ (m + 1) ≤ 10 ^ (16 - m) * 5 ^ (m + 1) :=
          Nat.mul_le_mul_right _ ((Numeral.lt_pow_length_digits c).le.trans
            (Nat.pow_le_pow_right (by decide) (by omega)))
      _ ≤ 2 ^ 53 := hbits m (by omega) hmany

/-- **A decimal without places behind the point is read as it is.** -/
theorem exists_scale_whole {m : Nat} (minus : Bool) (hexponent : s.exponent = m)
    (hplace : m + (Numeral.digits s.coefficient).length ≤ 16) (hc : s.coefficient ≤ 10 ^ 9) :
    ∃ y, scale (.ofRatio _ minus (s.coefficient * 10 ^ (m + 1)) 1) (-1) = some y ∧
      y.isNegative = minus ∧ y.isFinite = true ∧ y.ratio = s.number := by
  have hbits := mul_pow_five_le hc hplace
  have hlength := Numeral.length_digits_pos s.coefficient
  have hfactor : ∀ k : Nat, ((s.coefficient * 10 ^ k : Nat) : ℚ) =
      (s.coefficient * 5 ^ k : Nat) * 2 ^ (k : ℤ) := fun k => by
    rw [zpow_natCast]
    push_cast
    rw [mul_assoc, ← mul_pow]
    norm_num
  have hsize : ∀ k ≤ m + 1, ((s.coefficient * 10 ^ k : Nat) : ℚ) ≤ 2 ^ (1000 : ℤ) := fun k hk =>
    calc ((s.coefficient * 10 ^ k : Nat) : ℚ) ≤ (10 ^ 9 * 10 ^ 16 : Nat) :=
          Nat.cast_le.mpr (Nat.mul_le_mul hc (Nat.pow_le_pow_right (by decide) (by omega)))
      _ ≤ 2 ^ (90 : ℤ) := by norm_num
      _ ≤ 2 ^ (1000 : ℤ) := zpow_le_zpow_right₀ one_le_two (by decide)
  have hnatural := (isNearest_natural minus (s.coefficient * 10 ^ (m + 1))).ratio_eq infinity_pos
    hbits (by omega) (hfactor (m + 1)) (le_largest (hsize (m + 1) le_rfl))
  have hnumber : s.number = (s.coefficient * 10 ^ m : Nat) := by
    rw [Scientific.number, hexponent, zpow_natCast]
    push_cast
    rfl
  have hquotient : ((s.coefficient * 10 ^ (m + 1) : Nat) * 10 ^ (-1 : ℤ) : ℚ) = s.number := by
    rw [hnumber]
    push_cast
    rw [pow_succ]
    field_simp
  have hmost : s.number ≤ 2 ^ (1000 : ℤ) := hnumber.trans_le (hsize m (Nat.le_succ m))
  obtain ⟨y, hscale, hsign, hnearest⟩ := exists_scale_nearest hnatural (k := -1) (by decide)
    (hquotient.trans_le hmost)
  rw [hquotient] at hnearest
  refine ⟨y, hscale, hsign, hnearest.finite infinity_pos (le_largest hmost), ?_⟩
  refine hnearest.ratio_eq infinity_pos ?_ (by omega) (hnumber.trans (hfactor m)) (le_largest hmost)
  exact (Nat.mul_le_mul_left _ (Nat.pow_le_pow_right (by decide) (Nat.le_succ m))).trans hbits

/-- **A decimal whose significand is written is read as its number of 32 bits.** -/
theorem IsShortest.exists_scale {x : Binary32} (h : IsShortest x.word s) (hx : x.isFinite = true) :
    ∃ y, scale (.ofRatio _ x.isNegative s.coefficient 1) s.exponent = some y ∧
      y.convert .single = x := by
  have hfits : s.coefficient ≤ 2 ^ 53 := h.coefficient_le.trans (by decide)
  have hnatural := ratio_natural x.isNegative hfits
  have hlow := h.le_exponent h.coefficient_le
  have hhigh := h.exponent_le
  obtain ⟨y, hscale, hsign, hdrifted⟩ := exists_scale_drifted hnatural (k := s.exponent) (by omega)
    ((zpow_le_zpow_right₀ one_le_two (by decide)).trans h.low)
    (h.high.trans (zpow_le_zpow_right₀ one_le_two (by decide)))
  refine ⟨y, hscale, convert_eq_of_nearest hsign hdrifted.finite hx ?_⟩
  have hexact : s.exponent.natAbs ≤ 22 → y.IsNearest s.number := fun hsmall => by
    obtain ⟨z, hz, -, hnearest⟩ := exists_scale_nearest hnatural hsmall
      (h.high.trans (zpow_le_zpow_right₀ one_le_two (by decide)))
    rw [hscale] at hz
    exact Option.some.inj hz ▸ hnearest
  rcases h.nearest_of_isDrifted hdrifted hexact with hnearest | ⟨hexponent, hcoefficient⟩
  · exact hnearest
  · have hy : div (.ofRatio _ x.isNegative s.coefficient 1) (powerOfTen 32) = y := by
      rw [hexponent] at hscale
      exact Option.some.inj ((scale_neg (k := 32) (by decide) (by decide)).symm.trans hscale)
    have hunits : y.units = Width.double.units (Width.double.round
        (Width.double.units (Width.double.round s.coefficient 1))
        (Width.double.units (Width.double.round (10 ^ 32) 1))) := by
      rw [← hy]
      simp [div, powerOfTen, Binary.units]
    have hdecimal : Width.single.nearest s.num s.den =
        Width.single.nearest s.coefficient (10 ^ 32) := by
      simp [Scientific.num, Scientific.den, hexponent]
    rw [hunits, nearest_of_exception s.coefficient (by simpa using hcoefficient), ← hdecimal,
      h.reads_back]

/-- The decimal of a 32-bit number has few digits and a small exponent. -/
theorem moderate_shortest {x : Binary32} (tie : Tie) (hx : x.isFinite = true) :
    Moderate (x.shortest tie) := by
  rcases x.shortest_cases tie with ⟨-, hshortest⟩ | ⟨hpos, hshortest⟩
  · rw [hshortest]
    exact ⟨by decide, by decide, by decide⟩
  · have h := isShortest_shortest tie hpos (of_decide_eq_true hx)
    have hlow := h.le_exponent h.coefficient_le
    have hhigh := h.exponent_le
    rw [hshortest]
    exact ⟨h.coefficient_le.trans (by decide), by omega, by omega⟩

/-- **Every finite number of 32 bits is read from its literal.** -/
theorem exists_reread {x : Binary32} (hx : x.isFinite = true) :
    ∃ y, reread x = some y ∧ y.convert .single = x := by
  unfold reread
  rcases x.shortest_cases .even with ⟨hzero, hshortest⟩ | ⟨hpos, hshortest⟩
  · obtain ⟨y, hscale, hsign, hfinite, hratio⟩ := exists_scale_whole (s := ⟨0, 0⟩) (m := 0)
      x.isNegative rfl (by decide) (by decide)
    rw [hshortest]
    refine ⟨y, hscale, convert_eq_of_nearest hsign hfinite hx (hzero ▸ ?_)⟩
    refine Width.nearest_of_eq_ratio Width.double.unitsPerOne_pos (hratio.trans ?_)
    simp [Scientific.number]
  · have h := isShortest_shortest .even hpos (of_decide_eq_true hx)
    rw [hshortest]
    generalize Width.single.shortest .even x.word = s at h
    unfold written
    split
    · rename_i hwhole
      obtain ⟨m, hm⟩ := Int.eq_ofNat_of_zero_le hwhole.1
      obtain ⟨y, hscale, hsign, hfinite, hratio⟩ := exists_scale_whole x.isNegative hm
        (by omega) h.coefficient_le
      rw [hm, Int.toNat_natCast]
      exact ⟨y, hscale, convert_eq_of_nearest hsign hfinite hx (h.nearest_of_eq hratio)⟩
    · exact h.exists_scale hx

end Lakehouse.Json.Single
