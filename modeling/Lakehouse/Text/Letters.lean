/-!
# ASCII letters

Names of formats, transforms and modes are compared without regard to the case of their ASCII
letters; every other character stands for itself.

Model of `eq_ignore_ascii_case` and `to_ascii_uppercase`.
-/

namespace Lakehouse.Text

/-- The text with every ASCII letter in upper case. -/
def upper (s : String) : String := s.map Char.toUpper

/-- Whether two texts differ at most in the case of ASCII letters. -/
def sameLetters (a b : String) : Bool := upper a == upper b

/-- Whether two lists of characters differ at most in the case of ASCII letters. -/
def sameChars (a b : List Char) : Bool := a.map Char.toUpper == b.map Char.toUpper

theorem sameLetters_iff {a b : String} : sameLetters a b = true ↔ upper a = upper b := by
  simp [sameLetters]

theorem sameLetters_refl (a : String) : sameLetters a a = true := by simp [sameLetters]

theorem sameLetters_comm (a b : String) : sameLetters a b = sameLetters b a := by
  simp only [sameLetters]
  exact Bool.eq_iff_iff.mpr (by simp only [beq_iff_eq]; exact eq_comm)

end Lakehouse.Text
