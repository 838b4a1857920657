import Lakehouse.Proofs.Decimal.Exact
import Mathlib.Tactic.FieldSimp
import Mathlib.Tactic.NormNum

/-!
# Which decimals take a declared precision and scale

A decimal takes a scale exactly when some decimal of that scale denotes its number: no digit behind
the scale, and room for the zeros in front of it. Both ways to that decimal, zeros dropped and zeros
added, stop nowhere earlier.

* `Decimal.scale_normalize_le`: dropping zeros leads to the least scale of all decimals of a number.
* `Decimal.raiseTo_eq`: adding zeros leads to every decimal of the number with a larger scale.
* `Decimal.fitTo_eq_ok_iff`: what a decimal becomes is the decimal of its number at the declared
  scale, if that has no more digits than declared.
* `Decimal.rescale_iff`: the same in terms of the number alone.

About `rescale_exact`, which is modelled in `Decimal.Exact`.
-/

namespace Lakehouse.Decimal

/-- Two decimals of one number and one scale are one decimal. -/
theorem eq_of_number_eq {a b : Decimal} (hnumber : a.number = b.number)
    (hscale : a.scale = b.scale) : a = b := by
  rw [number_eq_iff, hscale] at hnumber
  have hcoefficient : a.coefficient = b.coefficient :=
    Int.eq_of_mul_eq_mul_right (by positivity) hnumber
  obtain ⟨_, _, _, _⟩ := a
  obtain ⟨_, _, _, _⟩ := b
  simp only at hcoefficient hscale
  subst hcoefficient hscale
  rfl

/-- Between decimals of one number, the one of more places has that many zeros more. -/
theorem coefficient_eq {a b : Decimal} (hnumber : a.number = b.number) {n : Nat}
    (hscale : a.scale = b.scale + n) : a.coefficient = b.coefficient * 10 ^ n := by
  rw [number_eq_iff, hscale, pow_add, mul_comm (10 ^ b.scale), ← mul_assoc] at hnumber
  exact Int.eq_of_mul_eq_mul_right (by positivity) hnumber

/-! ## Smaller scales -/

theorem dropPlace?_eq_none {d : Decimal} (h : d.dropPlace? = none) :
    d.scale = 0 ∨ d.coefficient % 10 ≠ 0 := by
  unfold dropPlace? at h
  split at h
  · cases h
  · rename_i hd
    exact not_and_or.mp hd |>.imp_left Decidable.not_not.mp

/-- The last place of a normalized decimal is no zero. -/
theorem dropPlace?_normalize (d : Decimal) : d.normalize.dropPlace? = none := by
  fun_induction normalize with
  | case1 d e h ih => exact ih
  | case2 d h => exact h

/-- **Dropping zeros leads to the least scale** of all decimals of a number. -/
theorem scale_normalize_le {d e : Decimal} (h : e.number = d.number) :
    d.normalize.scale ≤ e.scale := by
  refine Nat.not_lt.mp fun hlt => ?_
  obtain ⟨n, hn⟩ := Nat.exists_eq_add_of_lt hlt
  have hcoefficient := coefficient_eq ((number_normalize d).trans h.symm)
    (hn.trans (Nat.add_assoc _ _ _))
  rcases dropPlace?_eq_none (dropPlace?_normalize d) with hzero | hdigit
  · omega
  · rw [pow_succ, ← mul_assoc] at hcoefficient
    omega

/-! ## Larger scales -/

/-- Zeros are added as long as the decimal that has them all is one. -/
theorem addPlaces_eq {d e : Decimal} (n : Nat) (hnumber : e.number = d.number)
    (hscale : e.scale = d.scale + n) : d.addPlaces n = e := by
  induction n generalizing d with
  | zero => exact eq_of_number_eq hnumber.symm hscale.symm
  | succ n ih =>
    have hroom : (d.coefficient * 10).natAbs < 2 ^ 96 ∧ d.scale + 1 ≤ 28 := by
      have hcoefficient := coefficient_eq hnumber hscale
      have hbound := e.coefficient_lt
      have hmax := e.scale_le
      rw [hcoefficient, pow_succ', ← mul_assoc, Int.natAbs_mul] at hbound
      have hle : (d.coefficient * 10).natAbs ≤ (d.coefficient * 10).natAbs * (10 ^ n : ℤ).natAbs :=
        Nat.le_mul_of_pos_right _ (Int.natAbs_pos.mpr (by positivity))
      exact ⟨Nat.lt_of_le_of_lt hle hbound, by omega⟩
    have hplace : d.addPlace? = some ⟨d.coefficient * 10, d.scale + 1, hroom.1, hroom.2⟩ :=
      dif_pos hroom
    unfold addPlaces
    rw [hplace]
    exact ih (hnumber.trans (number_addPlace? hplace).symm) (by simp only; omega)

/-- **Adding zeros leads to every decimal of the number** with a larger scale. -/
theorem raiseTo_eq {d e : Decimal} (hnumber : e.number = d.number) (hscale : d.scale ≤ e.scale) :
    d.raiseTo e.scale = e :=
  addPlaces_eq _ hnumber (Nat.add_sub_cancel' hscale).symm

/-! ## Declared precision and scale -/

/-- **What a decimal becomes** is the decimal of its number at the declared scale, if that has no
more digits than declared. -/
theorem fitTo_eq_ok_iff {d e : Decimal} {precision scale : Nat} :
    d.fitTo precision scale = .ok e ↔
      e.number = d.number ∧ e.scale = scale ∧ e.precision ≤ precision := by
  constructor
  · intro h
    obtain ⟨hnumber, hscale, hprecision, -⟩ := fitTo_spec h
    exact ⟨hnumber, hscale, hprecision⟩
  · rintro ⟨hnumber, rfl, hprecision⟩
    have hleast : (if e.scale < d.scale then d.normalize else d).number = d.number ∧
        (if e.scale < d.scale then d.normalize else d).scale ≤ e.scale := by
      split
      · exact ⟨number_normalize d, scale_normalize_le hnumber⟩
      · rename_i hle
        exact ⟨rfl, Nat.not_lt.mp hle⟩
    have hmax : ¬ maxScale < e.scale := Nat.not_lt.mpr e.scale_le
    unfold fitTo
    simp only [if_neg hmax]
    rw [if_neg (Nat.not_lt.mpr hleast.2), raiseTo_eq (hnumber.trans hleast.1.symm) hleast.2,
      if_neg (fun h => h rfl), if_neg (Nat.not_lt.mpr hprecision)]

/-- The digits of a decimal are counted by the powers of ten above it. -/
theorem precision_le_iff {d : Decimal} {precision : Nat} (h : 1 ≤ precision) :
    d.precision ≤ precision ↔ |d.coefficient| < 10 ^ precision := by
  unfold Decimal.precision Numeral.digits
  rw [Nat.length_toDigits_le_iff (by omega) h, Int.abs_eq_natAbs]
  exact_mod_cast Iff.rfl

/-- Taking a declared precision and scale, as a search for a decimal. -/
theorem rescale_eq_ok_iff {d e : Decimal} {precision scale : Nat} :
    d.rescale precision scale = .ok e ↔
      e.number = d.number ∧ e.scale = scale ∧ e.precision ≤ precision :=
  rescale_eq_ok.trans fitTo_eq_ok_iff

/-- **A decimal takes a declared precision and scale exactly when its number does**: the scale is
supported, the number is whole in units of its last place, and these are below the capacity and of
no more digits than declared. It becomes the same number at that very scale, and taking the
precision and scale again changes nothing. -/
theorem rescale_iff (d : Decimal) {precision : Nat} (scale : Nat) (h : 1 ≤ precision) :
    ((∃ e, d.rescale precision scale = .ok e) ↔
      scale ≤ 28 ∧ ∃ n : ℤ, (n : ℚ) = d.number * 10 ^ scale ∧ |n| < 2 ^ 96 ∧
        |n| < 10 ^ precision) ∧
    ∀ e, d.rescale precision scale = .ok e →
      e.scale = scale ∧ e.number = d.number ∧ e.rescale precision scale = .ok e := by
  refine ⟨⟨?_, ?_⟩, ?_⟩
  · rintro ⟨e, he⟩
    obtain ⟨hnumber, rfl, hprecision⟩ := rescale_eq_ok_iff.mp he
    refine ⟨e.scale_le, e.coefficient, ?_, ?_, (precision_le_iff h).mp hprecision⟩
    · rw [← hnumber]
      unfold number
      field_simp
    · have hbound := e.coefficient_lt
      rw [Int.abs_eq_natAbs]
      exact_mod_cast hbound
  · rintro ⟨hscale, n, hn, hcapacity, hdigits⟩
    have hbound : n.natAbs < 2 ^ 96 := by
      rw [Int.abs_eq_natAbs] at hcapacity
      exact_mod_cast hcapacity
    have hnumber : (n : ℚ) / 10 ^ scale = d.number := by
      rw [hn]
      field_simp
    exact ⟨⟨n, scale, hbound, hscale⟩,
      rescale_eq_ok_iff.mpr ⟨hnumber, rfl, (precision_le_iff h).mpr hdigits⟩⟩
  · intro e he
    obtain ⟨hnumber, hscale, hprecision⟩ := rescale_eq_ok_iff.mp he
    exact ⟨hscale, hnumber, rescale_eq_ok_iff.mpr ⟨rfl, hscale, hprecision⟩⟩

/-- Four digits are enough for -12.3400 at two places, but one place is not. -/
theorem rescale_iff_trailing_zeros :
    let d : Decimal := ⟨-123400, 4, by decide, by decide⟩
    (∃ e, d.rescale 4 2 = .ok e ∧ e.scale = 2 ∧ e.number = d.number ∧ e.rescale 4 2 = .ok e) ∧
      ¬ ∃ e, d.rescale 4 1 = .ok e := by
  intro d
  obtain ⟨htakes, hkeeps⟩ := rescale_iff d 2 (show 1 ≤ 4 by decide)
  obtain ⟨e, he⟩ := htakes.mpr ⟨by decide, -1234, by norm_num [number, d], by decide, by decide⟩
  refine ⟨⟨e, he, hkeeps e he⟩, fun hone => ?_⟩
  obtain ⟨-, n, hn, -⟩ := (rescale_iff d 1 (show 1 ≤ 4 by decide)).1.mp hone
  have hcross : n * 10 = -1234 := by
    have hten : (n : ℚ) * 10 = -1234 := by
      rw [hn]
      norm_num [number, d]
    exact_mod_cast hten
  omega

end Lakehouse.Decimal
