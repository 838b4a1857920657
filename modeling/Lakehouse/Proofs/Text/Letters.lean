import Lakehouse.Text.Letters
import Mathlib

/-!
# The case of letters

Texts that agree but for the case of their letters agree on every other character.
-/

namespace Lakehouse.Text

/-- **A character that is no letter stands in both of two texts**, or in none, when they agree but
for the case of their letters. -/
theorem mem_of_sameChars {a b : List Char} {d : Char} (hd : d.isAlpha = false)
    (h : sameChars a b = true) (hmem : d ∈ b) : d ∈ a := by
  obtain ⟨hnotUpper, hnotLower⟩ : d.isUpper = false ∧ d.isLower = false :=
    Bool.or_eq_false_iff.mp hd
  have hsame : a.map Char.toUpper = b.map Char.toUpper := beq_iff_eq.mp h
  have hupper : d.toUpper ∈ a.map Char.toUpper := hsame ▸ List.mem_map_of_mem hmem
  obtain ⟨c, hc, hcd⟩ := List.mem_map.mp hupper
  rw [Char.toUpper_eq_of_not_isLower (Bool.eq_false_iff.mp hnotLower)] at hcd
  by_cases hlower : c.isLower = true
  · have hcontra : c.toUpper.isUpper = true := by
      rw [Char.isUpper_toUpper_eq_isAlpha]
      exact Bool.or_eq_true_iff.mpr (.inr hlower)
    rw [hcd, hnotUpper] at hcontra
    cases hcontra
  · rwa [← hcd, Char.toUpper_eq_of_not_isLower hlower]

theorem sameChars_symm {a b : List Char} (h : sameChars a b = true) : sameChars b a = true :=
  beq_iff_eq.mpr (beq_iff_eq.mp h).symm

end Lakehouse.Text
