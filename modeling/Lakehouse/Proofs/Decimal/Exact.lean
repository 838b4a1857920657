import Lakehouse.Decimal.Exact
import Lakehouse.Proofs.Except
import Mathlib.Algebra.Order.Field.Rat
import Mathlib.Tactic.Positivity
import Mathlib.Tactic.Ring

/-!
# Changing the scale keeps the number

A decimal denotes a rational number, and no change of the scale changes it.

* `Decimal.number`: the number of a decimal.
* `Decimal.fitTo_spec`: a decimal that takes a declared precision and scale keeps its number.
* `Decimal.fitTo_self`: a decimal of the declared scale is left as it is.
-/

namespace Lakehouse.Decimal

/-- The number that a decimal denotes. -/
def number (d : Decimal) : ℚ := d.coefficient / 10 ^ d.scale

theorem number_eq_iff {a b : Decimal} :
    a.number = b.number ↔
      a.coefficient * 10 ^ b.scale = b.coefficient * 10 ^ a.scale := by
  unfold number
  rw [div_eq_div_iff (by positivity) (by positivity)]
  exact_mod_cast Iff.rfl

theorem make?_eq_some {coefficient : Int} {scale : Nat} {d : Decimal} :
    make? coefficient scale = some d ↔ d.coefficient = coefficient ∧ d.scale = scale := by
  unfold make?
  constructor
  · intro h
    split at h
    · cases h
      exact ⟨rfl, rfl⟩
    · cases h
  · rintro ⟨rfl, rfl⟩
    exact dif_pos ⟨d.coefficient_lt, d.scale_le⟩

/-! ## Smaller scales -/

theorem number_dropPlace? {d e : Decimal} (h : d.dropPlace? = some e) :
    e.number = d.number := by
  unfold dropPlace? at h
  split at h
  · rename_i hzero
    obtain ⟨hscale, hdigit⟩ := hzero
    cases h
    rw [number_eq_iff]
    simp only
    obtain ⟨k, hk⟩ := Int.dvd_of_emod_eq_zero hdigit
    obtain ⟨n, hn⟩ := Nat.exists_eq_succ_of_ne_zero hscale
    rw [hk, hn, Int.mul_ediv_cancel_left _ (by decide), Nat.succ_sub_one, pow_succ]
    ring
  · cases h

theorem number_normalize (d : Decimal) : d.normalize.number = d.number := by
  fun_induction normalize with
  | case1 d e h ih => rw [ih, number_dropPlace? h]
  | case2 d h => rfl

/-! ## Larger scales -/

theorem number_addPlace? {d e : Decimal} (h : d.addPlace? = some e) : e.number = d.number := by
  obtain ⟨hcoefficient, hscale⟩ := make?_eq_some.mp h
  rw [number_eq_iff, hcoefficient, hscale, pow_succ]
  ring

theorem number_addPlaces (d : Decimal) (n : Nat) : (d.addPlaces n).number = d.number := by
  induction n generalizing d with
  | zero => rfl
  | succ n ih =>
    unfold addPlaces
    split
    · rename_i e he
      rw [ih, number_addPlace? he]
    · rfl

theorem number_raiseTo (d : Decimal) (scale : Nat) : (d.raiseTo scale).number = d.number :=
  number_addPlaces d _

/-! ## Declared precision and scale -/

/-- **A decimal keeps its number** when it takes a declared precision and scale. -/
theorem fitTo_spec {d e : Decimal} {precision scale : Nat}
    (h : d.fitTo precision scale = .ok e) :
    e.number = d.number ∧ e.scale = scale ∧ e.precision ≤ precision ∧ scale ≤ maxScale := by
  unfold fitTo at h
  simp only at h
  have hleast : (if scale < d.scale then d.normalize else d).number = d.number := by
    split
    · exact number_normalize d
    · rfl
  generalize (if scale < d.scale then d.normalize else d) = least at h hleast
  simp only [ite_error_eq_ok] at h
  obtain ⟨hmax, -, hscale, hprecision, h⟩ := h
  cases h
  exact ⟨(number_raiseTo least scale).trans hleast, Decidable.not_not.mp hscale,
    Nat.not_lt.mp hprecision, Nat.not_lt.mp hmax⟩

/-- A decimal that has the declared scale is left as it is. -/
theorem fitTo_self {d : Decimal} {precision : Nat} (h : d.precision ≤ precision) :
    d.fitTo precision d.scale = .ok d := by
  have hraise : d.raiseTo d.scale = d := by
    unfold raiseTo
    rw [Nat.sub_self]
    rfl
  have hmax : ¬ maxScale < d.scale := Nat.not_lt.mpr d.scale_le
  unfold fitTo
  rw [if_neg hmax]
  simp [hraise, h]

theorem rescale_eq_ok {d e : Decimal} {precision scale : Nat} :
    d.rescale precision scale = .ok e ↔ d.fitTo precision scale = .ok e := by
  unfold rescale
  cases d.fitTo precision scale <;> simp [Except.mapError]

end Lakehouse.Decimal
