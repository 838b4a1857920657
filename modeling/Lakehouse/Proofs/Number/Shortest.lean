import Lakehouse.Number.Shortest
import Lakehouse.Proofs.Number.Numeral
import Lakehouse.Proofs.Number.Rounding
import Mathlib.Algebra.Order.Field.Power
import Mathlib.Tactic.NormNum

/-!
# The decimal that is written reads back

The neighbours of a number on a decimal grid are at most one step of the grid away, the first of them
at most half a step. On a grid of enough digits half a step is too little to reach another number, so
the first neighbour reads back there at the latest, and what is written has no more digits.

* `Scientific.number`: the number that a decimal stands for.
* `Width.pow_leadingExponent`: a ratio lies between two powers of ten.
* `Width.neighbours_eq`: how near the neighbours are.
* `Width.Neighbour`, `Width.exists_neighbour`: what is known about the decimal that is found.
* `Width.stripZeros_number`: zeros at the end do not change the number.
* `Width.exists_shortest`: the same about the decimal that is written.
-/

namespace Lakehouse

/-! ## Decimals and their numbers -/

namespace Scientific

/-- The number that a decimal stands for. -/
def number (s : Scientific) : ℚ := s.coefficient * 10 ^ s.exponent

theorem den_pos (s : Scientific) : 0 < s.den := Nat.pow_pos (by decide)

/-- A power is the quotient of two, one of which is one. -/
theorem zpow_eq_div (a : ℚ) (e : ℤ) : a ^ e = a ^ e.toNat / a ^ (-e).toNat := by
  rcases Int.le_total 0 e with hpos | hneg
  · have hzero : (-e).toNat = 0 := by omega
    rw [hzero, pow_zero, div_one, ← zpow_natCast, Int.toNat_of_nonneg hpos]
  · have hzero : e.toNat = 0 := by omega
    have habs : e = -((-e).toNat : ℤ) := by omega
    rw [hzero, pow_zero, one_div, ← zpow_natCast, ← zpow_neg, ← habs]

theorem num_div_den (s : Scientific) : (s.num : ℚ) / s.den = s.number := by
  unfold num den number
  push_cast
  rw [zpow_eq_div, mul_div_assoc]

end Scientific

namespace Width

variable {w : Width} {tie : Tie} {word num den : Nat}

/-! ## Powers of ten around a ratio -/

/-- **A ratio lies between two powers of ten.** -/
theorem pow_leadingExponent (hnum : 0 < num) (hden : 0 < den) :
    (10 : ℚ) ^ (leadingExponent num den - 1) ≤ num / den ∧
      (num / den : ℚ) < 10 ^ leadingExponent num den := by
  have hnumq : (0 : ℚ) < num := Nat.cast_pos.mpr hnum
  have hdenq : (0 : ℚ) < den := Nat.cast_pos.mpr hden
  unfold leadingExponent
  split
  · rename_i hle
    have hlow := Numeral.pow_length_digits_le (Nat.div_pos hle hden)
    have hhigh := Numeral.lt_pow_length_digits (num / den)
    have hlength := Numeral.length_digits_pos (num / den)
    generalize (Numeral.digits (num / den)).length = length at hlow hhigh hlength
    rw [show (length : ℤ) - 1 = (length - 1 : Nat) by omega, zpow_natCast, zpow_natCast,
      le_div_iff₀ hdenq, div_lt_iff₀ hdenq]
    exact ⟨by exact_mod_cast (Nat.le_div_iff_mul_le hden).mp hlow,
      by exact_mod_cast (Nat.div_lt_iff_lt_mul hden).mp hhigh⟩
  · rename_i hless
    have hround : (den + num - 1) / num - 1 = (den - 1) / num := by
      rw [show den + num - 1 = den - 1 + num by omega, Nat.add_div_right _ hnum,
        Nat.add_sub_cancel]
    rw [hround]
    have hlow := Numeral.pow_length_digits_le (n := (den - 1) / num)
      (Nat.div_pos (by omega) hnum)
    have hhigh := Numeral.lt_pow_length_digits ((den - 1) / num)
    have hlength := Numeral.length_digits_pos ((den - 1) / num)
    generalize (Numeral.digits ((den - 1) / num)).length = length at hlow hhigh hlength
    have hlow := (Nat.le_div_iff_mul_le hnum).mp hlow
    have hhigh := (Nat.div_lt_iff_lt_mul hnum).mp hhigh
    rw [show (1 - length - 1 : ℤ) = -(length : ℤ) by omega,
      show (1 - length : ℤ) = -((length - 1 : Nat) : ℤ) by omega, zpow_neg, zpow_neg,
      zpow_natCast, zpow_natCast, inv_le_comm₀ (by positivity) (by positivity),
      lt_inv_comm₀ (by positivity) (by positivity), inv_div, div_le_iff₀ hnumq,
      lt_div_iff₀ hnumq]
    have hlow' : 10 ^ (length - 1) * num < den := by omega
    have hhigh' : den ≤ 10 ^ length * num := by omega
    exact ⟨by exact_mod_cast hhigh', by exact_mod_cast hlow'⟩

/-! ## Neighbours on a grid -/

/-- **The neighbours of a ratio**: neither is a step or more away, and the first is not more than
half a step away. -/
theorem neighbours_eq (tie : Tie) (num : Nat) (hden : 0 < den) (e : ℤ) : ∃ near far : Nat,
    neighbours tie num den e = [⟨near, e⟩, ⟨far, e⟩] ∧ far ≤ near + 1 ∧
      2 * |(near : ℚ) - num / den / 10 ^ e| ≤ 1 ∧ |(far : ℚ) - num / den / 10 ^ e| ≤ 1 := by
  have hbottom : 0 < den * 10 ^ e.toNat := Nat.mul_pos hden (Nat.pow_pos (by decide))
  have hratio : (num / den / 10 ^ e : ℚ) =
      (num * 10 ^ (-e).toNat : Nat) / (den * 10 ^ e.toNat : Nat) := by
    have hdenq : (den : ℚ) ≠ 0 := Nat.cast_ne_zero.mpr (Nat.ne_of_gt hden)
    rw [Scientific.zpow_eq_div]
    push_cast
    field_simp
  simp only [neighbours, hratio]
  generalize num * 10 ^ (-e).toNat = top
  generalize den * 10 ^ e.toNat = bottom at hbottom
  have hbottomq : (0 : ℚ) < bottom := Nat.cast_pos.mpr hbottom
  have hsplit : (top : ℚ) / bottom = (top / bottom : Nat) + (top % bottom : Nat) / bottom := by
    rw [← mul_right_inj' hbottomq.ne', mul_add, mul_div_cancel₀ _ hbottomq.ne',
      mul_div_cancel₀ _ hbottomq.ne']
    exact_mod_cast (Nat.div_add_mod top bottom).symm
  have hrest : ((top % bottom : Nat) : ℚ) / bottom < 1 := by
    rw [div_lt_one hbottomq]
    exact Nat.cast_lt.mpr (Nat.mod_lt top hbottom)
  have hrest' : 0 ≤ ((top % bottom : Nat) : ℚ) / bottom := by positivity
  rw [hsplit]
  split
  · rename_i hdown
    have hhalf : 2 * (((top % bottom : Nat) : ℚ) / bottom) ≤ 1 := by
      rw [← mul_div_assoc, div_le_one hbottomq]
      exact_mod_cast (show 2 * (top % bottom) ≤ bottom by omega)
    refine ⟨_, _, rfl, le_rfl, ?_, ?_⟩
    · rw [sub_add_cancel_left, abs_neg, abs_of_nonneg hrest']
      exact hhalf
    · push_cast
      rw [add_sub_add_left_eq_sub, abs_le]
      constructor <;> linarith
  · rename_i hup
    have hhalf : 1 ≤ 2 * (((top % bottom : Nat) : ℚ) / bottom) := by
      rw [← mul_div_assoc, one_le_div hbottomq]
      exact_mod_cast (show bottom ≤ 2 * (top % bottom) by omega)
    refine ⟨_, _, rfl, by omega, ?_, ?_⟩
    · push_cast
      rw [add_sub_add_left_eq_sub, abs_of_nonneg (by linarith)]
      linarith
    · rw [sub_add_cancel_left, abs_neg, abs_of_nonneg hrest']
      exact hrest.le

/-- A decimal near a number reads back. -/
theorem readsBack_of_close {s : Scientific} (hword : word < w.infinity)
    (h : 2 ^ (w.fraction + 2) * |s.number - w.ratio word| < w.ratio word) :
    w.readsBack word s = true := by
  have hclose : w.nearest s.num s.den = word :=
    nearest_of_close_ratio s.den_pos (s.num_div_den.symm ▸ h)
  rw [readsBack, round_eq_min, hclose, Nat.min_eq_left (Nat.le_of_lt hword), beq_self_eq_true]

/-- What is known about the decimal that is found for a word: it reads back, it has few digits, it
is of the number's size, and if it has many digits, it is nearest the number. -/
structure Neighbour (w : Width) (word digits : Nat) (s : Scientific) : Prop where
  reads_back : w.nearest s.num s.den = word
  coefficient_le : s.coefficient ≤ 10 ^ digits
  pow_le : (10 : ℚ) ^ s.exponent ≤ w.ratio word
  near : |s.number - w.ratio word| ≤ 10 ^ s.exponent
  nearest : 2 ^ (w.fraction + 1) + 2 ≤ s.coefficient →
    2 * |s.number - w.ratio word| ≤ 10 ^ s.exponent

/-- Distances on a grid, in steps and as they are. -/
theorem abs_sub_ratio (w : Width) (word c : Nat) (e : ℤ) :
    |(⟨c, e⟩ : Scientific).number - w.ratio word| =
      |(c : ℚ) - w.units word / w.unitsPerOne / 10 ^ e| * 10 ^ e := by
  have hpos : (0 : ℚ) < 10 ^ e := by positivity
  rw [← abs_of_pos hpos, ← abs_mul, abs_of_pos hpos, sub_mul, div_mul_cancel₀ _ hpos.ne']
  rfl

/-- A grid on which the number is large: the first neighbour reads back. -/
theorem readsBack_of_large {near : Nat} {e : ℤ} (hword : word < w.infinity)
    (hnear : 2 * |(near : ℚ) - w.units word / w.unitsPerOne / 10 ^ e| ≤ 1)
    (hlarge : 2 ^ (w.fraction + 1) * 10 ^ e < w.ratio word) :
    w.readsBack word ⟨near, e⟩ = true := by
  have hpos : (0 : ℚ) < 2 ^ (w.fraction + 1) * 10 ^ e := by positivity
  refine readsBack_of_close hword (lt_of_le_of_lt ?_ hlarge)
  rw [abs_sub_ratio]
  generalize |(near : ℚ) - w.units word / w.unitsPerOne / 10 ^ e| = distance at hnear
  calc (2 : ℚ) ^ (w.fraction + 2) * (distance * 10 ^ e)
      = 2 ^ (w.fraction + 1) * 10 ^ e * (2 * distance) := by ring
    _ ≤ 2 ^ (w.fraction + 1) * 10 ^ e := mul_le_of_le_one_right hpos.le hnear

/-- The second of two is found only where the first is not. -/
theorem find?_pair {α : Type} {p : α → Bool} {a b x : α} (h : [a, b].find? p = some x) :
    p x = true ∧ (x = a ∨ x = b ∧ p a = false) := by
  refine ⟨List.find?_some h, ?_⟩
  rw [List.find?_cons] at h
  cases hfirst : p a with
  | true =>
    rw [hfirst] at h
    exact .inl (Option.some.inj h).symm
  | false =>
    rw [hfirst] at h
    exact .inr ⟨List.mem_singleton.mp (List.mem_of_find?_eq_some h), rfl⟩

/-- The decimals that are tried for a word with `n + 1` digits, and the first that reads back. -/
def tried (w : Width) (tie : Tie) (word n : Nat) : Option Scientific :=
  (neighbours tie (w.units word) w.unitsPerOne
    (leadingExponent (w.units word) w.unitsPerOne - (n + 1 : Nat))).find? (w.readsBack word)

theorem units_pos (hpos : 0 < word) : 0 < w.units word :=
  Nat.lt_of_le_of_lt (Nat.zero_le _) (w.units_strictMono hpos)

/-- **What is found on a grid is as good as was said.** -/
theorem neighbour_of_tried {n : Nat} {s : Scientific} (hpos : 0 < word) (hword : word < w.infinity)
    (h : w.tried tie word n = some s) : Neighbour w word (n + 1) s := by
  obtain ⟨hlow, hhigh⟩ := pow_leadingExponent (units_pos (w := w) hpos) w.unitsPerOne_pos
  unfold tried at h
  generalize leadingExponent (w.units word) w.unitsPerOne = lead at hlow hhigh h
  obtain ⟨near, far, hpair, hstep, hnear, hfar⟩ := neighbours_eq tie (w.units word)
    w.unitsPerOne_pos (lead - (n + 1 : Nat))
  have hgrid : (10 : ℚ) ^ lead = 10 ^ (n + 1) * 10 ^ (lead - (n + 1 : Nat)) := by
    rw [← zpow_natCast, ← zpow_add₀ (by norm_num), add_sub_cancel]
  have hless : (10 : ℚ) ^ (lead - (n + 1 : Nat)) ≤ w.ratio word :=
    (zpow_le_zpow_right₀ (by norm_num) (by omega)).trans hlow
  have hsteps : w.units word / w.unitsPerOne / 10 ^ (lead - (n + 1 : Nat)) < (10 : ℚ) ^ (n + 1) := by
    rw [div_lt_iff₀ (by positivity), ← hgrid]
    exact hhigh
  rw [hpair] at h
  generalize lead - (n + 1 : Nat) = e at *
  have hpow : (0 : ℚ) < 10 ^ e := by positivity
  obtain ⟨hreads, hcase⟩ := find?_pair h
  have hreads_back : w.nearest s.num s.den = word := by
    have hround : min (w.nearest s.num s.den) w.infinity = word := eq_of_beq hreads
    omega
  have hexponent : s.exponent = e := by rcases hcase with rfl | ⟨rfl, -⟩ <;> rfl
  have hdistance : |(s.coefficient : ℚ) - w.units word / w.unitsPerOne / 10 ^ e| ≤ 1 := by
    rcases hcase with rfl | ⟨rfl, -⟩
    · have := abs_nonneg ((near : ℚ) - w.units word / w.unitsPerOne / 10 ^ e)
      linarith
    · exact hfar
  have hnumber : |s.number - w.ratio word| =
      |(s.coefficient : ℚ) - w.units word / w.unitsPerOne / 10 ^ e| * 10 ^ e :=
    hexponent ▸ abs_sub_ratio w word s.coefficient s.exponent
  refine ⟨hreads_back, ?_, hexponent ▸ hless, ?_, fun hmany => ?_⟩
  · have hbound : (s.coefficient : ℚ) < (10 ^ (n + 1) + 1 : Nat) := by
      push_cast
      linarith [le_abs_self ((s.coefficient : ℚ) - w.units word / w.unitsPerOne / 10 ^ e)]
    exact Nat.le_of_lt_succ (Nat.cast_lt.mp hbound)
  · rw [hnumber, hexponent]
    exact mul_le_of_le_one_left hpow.le hdistance
  · rcases hcase with rfl | ⟨rfl, hmissed⟩
    · rw [hnumber, ← mul_assoc]
      exact mul_le_of_le_one_left hpow.le hnear
    · -- the nearer neighbour would have read back
      have hcount : (2 ^ (w.fraction + 1) + 1 : ℚ) ≤ near := by
        exact_mod_cast (show 2 ^ (w.fraction + 1) + 1 ≤ near by simp only at hmany; omega)
      have hlarge : 2 ^ (w.fraction + 1) * 10 ^ e < w.ratio word := by
        rw [ratio, ← lt_div_iff₀ hpow]
        linarith [le_abs_self ((near : ℚ) - w.units word / w.unitsPerOne / 10 ^ e)]
      rw [readsBack_of_large hword hnear hlarge] at hmissed
      cases hmissed

/-- On a grid of enough digits something is found. -/
theorem isSome_tried {n : Nat} (tie : Tie) (hpos : 0 < word) (hword : word < w.infinity)
    (hdigits : 2 ^ (w.fraction + 1) < 10 ^ n) : (w.tried tie word n).isSome := by
  obtain ⟨hlow, -⟩ := pow_leadingExponent (units_pos (w := w) hpos) w.unitsPerOne_pos
  unfold tried
  generalize leadingExponent (w.units word) w.unitsPerOne = lead at hlow
  obtain ⟨near, far, hpair, -, hnear, -⟩ := neighbours_eq tie (w.units word)
    w.unitsPerOne_pos (lead - (n + 1 : Nat))
  have hlarge : 2 ^ (w.fraction + 1) * (10 : ℚ) ^ (lead - (n + 1 : Nat)) < w.ratio word := by
    refine lt_of_lt_of_le ?_ hlow
    rw [show lead - 1 = (n : ℤ) + (lead - (n + 1 : Nat)) by omega, zpow_add₀ (by norm_num),
      zpow_natCast]
    exact mul_lt_mul_of_pos_right (by exact_mod_cast hdigits) (by positivity)
  rw [hpair, List.find?_cons, readsBack_of_large hword hnear hlarge]
  rfl

theorem findSome?_range {α : Type} {f : Nat → Option α} {n m : Nat} (hn : n < m)
    (h : (f n).isSome) : ∃ k ≤ n, ∃ a, f k = some a ∧ (List.range m).findSome? f = some a := by
  obtain ⟨a, ha⟩ : ∃ a, (List.range (n + 1)).findSome? f = some a :=
    Option.isSome_iff_exists.mp
      (List.findSome?_isSome_iff.mpr ⟨n, List.mem_range.mpr n.lt_succ_self, h⟩)
  obtain ⟨k, hk, hfound⟩ := List.exists_of_findSome?_eq_some ha
  refine ⟨k, Nat.le_of_lt_succ (List.mem_range.mp hk), a, hfound, ?_⟩
  rw [show m = n + 1 + (m - (n + 1)) by omega, List.range_add, List.findSome?_append, ha,
    Option.some_or]

/-! ## Zeros at the end -/

theorem pow_zeros_dvd (c : Nat) :
    10 ^ ((Numeral.digits c).reverse.takeWhile (· == '0')).length ∣ c := by
  generalize hzeros : (Numeral.digits c).reverse.takeWhile (· == '0') = zeros
  have hsplit : Numeral.digits c =
      ((Numeral.digits c).reverse.dropWhile (· == '0')).reverse ++ zeros.reverse := by
    rw [← List.reverse_append, ← hzeros, List.takeWhile_append_dropWhile, List.reverse_reverse]
  have hreplicate : zeros.reverse = List.replicate zeros.length '0' := by
    refine List.eq_replicate_iff.mpr ⟨List.length_reverse, fun d hd => ?_⟩
    have hmem : d ∈ (Numeral.digits c).reverse.takeWhile (· == '0') :=
      hzeros ▸ List.mem_reverse.mp hd
    exact eq_of_beq (List.all_eq_true.mp List.all_takeWhile d hmem)
  have hvalue := Numeral.ofDigitChars_digits c
  rw [hsplit, Nat.ofDigitChars_append, hreplicate, Nat.ofDigitChars_replicate_zero] at hvalue
  exact ⟨_, hvalue.symm⟩

/-- **Zeros at the end do not change the number.** -/
theorem stripZeros_number (s : Scientific) : (stripZeros s).number = s.number := by
  obtain ⟨rest, hrest⟩ := pow_zeros_dvd s.coefficient
  unfold stripZeros Scientific.number
  simp only
  generalize ((Numeral.digits s.coefficient).reverse.takeWhile (· == '0')).length = zeros at *
  have hten : (10 : ℚ) ≠ 0 := by norm_num
  rw [hrest, Nat.mul_div_cancel_left _ (Nat.pow_pos (by decide)), zpow_add₀ hten, zpow_natCast]
  push_cast
  ring

theorem stripZeros_coefficient_le (s : Scientific) :
    (stripZeros s).coefficient ≤ s.coefficient :=
  Nat.div_le_self _ _

/-! ## What is written -/

namespace Neighbour

variable {digits : Nat} {s : Scientific}

/-- It reads back without the zeros at its end, too. -/
theorem nearest_stripZeros (h : Neighbour w word digits s) :
    w.nearest (stripZeros s).num (stripZeros s).den = word := by
  rw [← h.reads_back]
  refine nearest_congr_ratio (Scientific.den_pos _) s.den_pos ?_
  rw [Scientific.num_div_den, Scientific.num_div_den, stripZeros_number]

theorem number_le (h : Neighbour w word digits s) : s.number ≤ 2 * w.ratio word := by
  have habove := (le_abs_self _).trans h.near
  have hpow := h.pow_le
  linarith

theorem ratio_le (h : Neighbour w word digits s) (hpos : 0 < word) :
    w.ratio word ≤ 2 * s.number :=
  s.num_div_den ▸ ratio_le_two_mul s.den_pos hpos h.reads_back

end Neighbour

/-- **What is known about the decimal that is written**: but for zeros at the end it is found on a
grid of no more digits than are always enough. -/
theorem exists_shortest {n : Nat} (tie : Tie) (hpos : 0 < word) (hword : word < w.infinity)
    (hdigits : 2 ^ (w.fraction + 1) < 10 ^ n) (hn : n < 17) :
    ∃ s, w.shortest tie word = stripZeros s ∧ Neighbour w word (n + 1) s := by
  obtain ⟨k, hk, s, hs, hfound⟩ := findSome?_range hn (isSome_tried tie hpos hword hdigits)
  obtain ⟨hreads, hcoefficient, hpow, hnear, hnearest⟩ := neighbour_of_tried hpos hword hs
  refine ⟨s, ?_, hreads, hcoefficient.trans (Nat.pow_le_pow_right (by decide) (by omega)), hpow,
    hnear, hnearest⟩
  unfold shortest
  simp only [List.findSome?_map]
  unfold tried at hfound
  simp only [Function.comp_def, hfound]

end Width

/-- The decimal of zero is zero, and that of another number is the one of its word. -/
theorem Binary.shortest_cases {w : Width} (x : Binary w) (tie : Tie) :
    x.word = 0 ∧ x.shortest tie = ⟨0, 0⟩ ∨
      0 < x.word ∧ x.shortest tie = w.shortest tie x.word := by
  by_cases hzero : x.word = 0
  · exact .inl ⟨hzero, if_pos hzero⟩
  · exact .inr ⟨Nat.pos_of_ne_zero hzero, if_neg hzero⟩

end Lakehouse
