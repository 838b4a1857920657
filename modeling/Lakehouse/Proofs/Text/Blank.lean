import Lakehouse.Text.Blank

/-!
# Texts without blanks

The visible characters of ASCII are no blanks, and trimming leaves a text without blanks as it is.
Trimming any text removes nothing but blanks (`count_trimmed`) and leaves none at its ends
(`ends_trimmed`), so a second time it removes nothing (`trimmed_trimmed`).
-/

namespace Lakehouse.Text

/-- The visible characters of ASCII are no blanks. -/
theorem isBlank_eq_false {c : Char} (hlow : 33 ≤ c.toNat) (hhigh : c.toNat ≤ 126) :
    isBlank c = false := by
  simp only [isBlank, Bool.or_eq_false_iff, Bool.and_eq_false_iff, beq_eq_false_iff_ne,
    decide_eq_false_iff_not]
  omega

theorem isBlank_of_isDigit {c : Char} (h : c.isDigit = true) : isBlank c = false := by
  rw [Char.isDigit_iff_toNat] at h
  have hlow : 48 ≤ c.toNat := h.1
  have hhigh : c.toNat ≤ 57 := h.2
  exact isBlank_eq_false (by omega) (by omega)

theorem isBlank_of_isAlpha {c : Char} (h : c.isAlpha = true) : isBlank c = false := by
  rcases (Bool.or_eq_true c.isUpper c.isLower).mp h with hupper | hlower
  · have hbounds : 65 ≤ c.toNat ∧ c.toNat ≤ 90 := of_decide_eq_true hupper
    exact isBlank_eq_false (by omega) (by omega)
  · obtain ⟨hlow, hhigh⟩ := (Bool.and_eq_true _ _).mp hlower
    have hlow : 97 ≤ c.toNat := of_decide_eq_true hlow
    have hhigh : c.toNat ≤ 122 := of_decide_eq_true hhigh
    exact isBlank_eq_false (by omega) (by omega)

theorem dropBlanks_cons {c : Char} (cs : List Char) (h : isBlank c = false) :
    dropBlanks (c :: cs) = c :: cs := by
  unfold dropBlanks
  rw [List.dropWhile_cons_of_neg (by simp [h])]

theorem dropBlanks_eq_self {cs : List Char} (h : ∀ c ∈ cs, isBlank c = false) :
    dropBlanks cs = cs := by
  cases cs with
  | nil => rfl
  | cons c cs => exact dropBlanks_cons cs (h c List.mem_cons_self)

/-- A text without blanks has none at its ends. -/
theorem trimmed_eq_self {cs : List Char} (h : ∀ c ∈ cs, isBlank c = false) :
    trimmed cs = cs := by
  unfold trimmed
  rw [dropBlanks_eq_self h, dropBlanks_eq_self fun c hc => h c (List.mem_reverse.mp hc),
    List.reverse_reverse]

/-- Dropping blanks drops no other character. -/
theorem count_dropBlanks {d : Char} (hd : isBlank d = false) (cs : List Char) :
    (dropBlanks cs).count d = cs.count d := by
  induction cs with
  | nil => rfl
  | cons c cs ih =>
    by_cases hc : isBlank c = true
    · have hne : c ≠ d := by
        rintro rfl
        simp [hc] at hd
      have hdrop : dropBlanks (c :: cs) = dropBlanks cs := List.dropWhile_cons_of_pos hc
      rw [hdrop, ih, List.count_cons_of_ne hne]
    · rw [dropBlanks_cons cs (by simpa using hc)]

/-- **Trimming removes nothing but blanks.** -/
theorem count_trimmed {d : Char} (hd : isBlank d = false) (cs : List Char) :
    (trimmed cs).count d = cs.count d := by
  unfold trimmed
  rw [List.count_reverse, count_dropBlanks hd, List.count_reverse, count_dropBlanks hd]

theorem count_trim {d : Char} (hd : isBlank d = false) (s : String) :
    (trim s).toList.count d = s.toList.count d := by
  unfold trim
  rw [String.toList_ofList, count_trimmed hd]

/-! ## Both ends -/

theorem of_mem_head?_dropWhile {p : Char → Bool} (cs : List Char) {c : Char}
    (h : c ∈ (cs.dropWhile p).head?) : p c = false := by
  have hnot := List.head?_dropWhile_not p cs
  rw [Option.mem_def.mp h] at hnot
  simpa using hnot

/-- When characters have been dropped from both ends, none of them stands at an end. -/
theorem ends_of_dropWhile (p : Char → Bool) (cs : List Char) :
    (∀ c ∈ ((cs.dropWhile p).reverse.dropWhile p).reverse.head?, p c = false) ∧
      ∀ c ∈ ((cs.dropWhile p).reverse.dropWhile p).reverse.getLast?, p c = false := by
  constructor
  · intro c hc
    have hstarts : ((cs.dropWhile p).reverse.dropWhile p).reverse <+: cs.dropWhile p := by
      rw [← List.reverse_suffix, List.reverse_reverse]
      exact List.dropWhile_suffix p
    obtain ⟨rest, hrest⟩ := hstarts
    refine of_mem_head?_dropWhile cs ?_
    rw [← hrest, List.head?_append, Option.mem_def.mp hc]
    rfl
  · intro c hc
    rw [List.getLast?_reverse] at hc
    exact of_mem_head?_dropWhile _ hc

theorem ends_trimmed (cs : List Char) :
    (∀ c ∈ (trimmed cs).head?, isBlank c = false) ∧
      ∀ c ∈ (trimmed cs).getLast?, isBlank c = false :=
  ends_of_dropWhile isBlank cs

theorem dropBlanks_of_head? {cs : List Char} (h : ∀ c ∈ cs.head?, isBlank c = false) :
    dropBlanks cs = cs := by
  cases cs with
  | nil => rfl
  | cons c cs => exact dropBlanks_cons cs (h c rfl)

/-- A text without blanks at its ends is left as it is. -/
theorem trimmed_of_ends {cs : List Char} (hhead : ∀ c ∈ cs.head?, isBlank c = false)
    (hlast : ∀ c ∈ cs.getLast?, isBlank c = false) : trimmed cs = cs := by
  unfold trimmed
  rw [dropBlanks_of_head? hhead, dropBlanks_of_head? (by simpa using hlast), List.reverse_reverse]

theorem trimmed_trimmed (cs : List Char) : trimmed (trimmed cs) = trimmed cs :=
  trimmed_of_ends (ends_trimmed cs).1 (ends_trimmed cs).2

/-! ## What is kept -/

theorem mem_trimmed {c : Char} (hc : isBlank c = false) {cs : List Char} :
    c ∈ trimmed cs ↔ c ∈ cs := by
  rw [← List.count_pos_iff, count_trimmed hc, List.count_pos_iff]

theorem trimmed_subset (cs : List Char) : trimmed cs ⊆ cs := by
  intro c hc
  have hlast := (List.dropWhile_suffix isBlank).subset (List.mem_reverse.mp hc)
  exact (List.dropWhile_suffix isBlank).subset (List.mem_reverse.mp hlast)

/-- Trimming leaves a text with nothing but blanks exactly if it was one. -/
theorem all_isBlank_trimmed (cs : List Char) : (trimmed cs).all isBlank = cs.all isBlank := by
  rw [Bool.eq_iff_iff, List.all_eq_true, List.all_eq_true]
  constructor
  · intro h c hc
    cases hblank : isBlank c with
    | true => rfl
    | false => rw [← hblank, h c ((mem_trimmed hblank).mpr hc)]
  · exact fun h c hc => h c (trimmed_subset cs hc)

theorem trimmed_eq_nil_iff {cs : List Char} : trimmed cs = [] ↔ cs.all isBlank = true := by
  rw [← all_isBlank_trimmed]
  constructor
  · intro h
    rw [h]
    rfl
  · intro h
    cases hcs : trimmed cs with
    | nil => rfl
    | cons c rest =>
      have hhead : isBlank c = false := (ends_trimmed cs).1 c (by rw [hcs]; rfl)
      simp [hcs, hhead] at h

end Lakehouse.Text
