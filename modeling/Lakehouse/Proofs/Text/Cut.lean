import Lakehouse.Text.Cut

/-!
# Joining and splitting

Texts that are joined by a separator are split into the pieces of all of them, one after the other.

* `Text.splitOn_intercalate`: the pieces of a joined text.
* `Text.pieces_intercalate`: texts without separators are the pieces of what they are joined to.
* `Text.length_splitOn`: a text has one piece more than separators.
* `Text.cut_cases`: a text without separators is not cut, and any other at its first one.
-/

namespace Lakehouse.Text

variable {sep : Char}

/-- **A joined text is split into the pieces of its parts.** -/
theorem splitOn_intercalate {parts : List (List Char)} (h : parts ≠ []) :
    ([sep].intercalate parts).splitOn sep = parts.flatMap (·.splitOn sep) := by
  induction parts with
  | nil => exact absurd rfl h
  | cons part rest ih =>
    cases rest with
    | nil => simp
    | cons next more =>
      rw [List.intercalate_cons_cons, List.append_assoc, List.singleton_append,
        List.splitOn_append_cons_self, ih (List.cons_ne_nil next more)]
      rfl

/-- A text has one piece more than separators. -/
theorem length_splitOn (cs : List Char) : (cs.splitOn sep).length = cs.count sep + 1 := by
  induction cs with
  | nil => simp
  | cons c cs ih =>
    rw [List.splitOn_cons_eq_if_modifyHead, List.count_cons]
    split
    · rw [List.length_cons, ih]
    · rw [List.length_modifyHead, ih, Nat.add_zero]

/-- A piece has no separators. -/
theorem not_mem_of_mem_splitOn {cs part : List Char} (h : part ∈ cs.splitOn sep) : sep ∉ part := by
  induction cs generalizing part with
  | nil => simp_all
  | cons c cs ih =>
    rw [List.splitOn_cons_eq_if_modifyHead] at h
    split at h
    · rcases List.mem_cons.mp h with rfl | hrest
      · exact List.not_mem_nil
      · exact ih hrest
    · rename_i hc
      obtain ⟨first, rest, hsplit⟩ := List.exists_cons_of_ne_nil (List.splitOn_ne_nil sep cs)
      rw [hsplit, List.modifyHead_cons] at h
      rw [hsplit] at ih
      rcases List.mem_cons.mp h with rfl | hrest
      · exact List.not_mem_cons_of_ne_of_not_mem (fun hsep => hc (by simp [hsep]))
          (ih List.mem_cons_self)
      · exact ih (List.mem_cons_of_mem first hrest)

/-- A joined text starts with the start of its first part. -/
theorem head?_intercalate {part : List Char} (rest : List (List Char)) (h : part ≠ []) :
    ([sep].intercalate (part :: rest)).head? = part.head? := by
  obtain ⟨c, cs, rfl⟩ := List.exists_cons_of_ne_nil h
  cases rest with
  | nil => simp
  | cons next more =>
    rw [List.intercalate_cons_cons]
    rfl

/-- A joined text is not empty when its first part is not. -/
theorem intercalate_ne_nil {part : List Char} (rest : List (List Char)) (h : part ≠ []) :
    [sep].intercalate (part :: rest) ≠ [] := by
  rw [ne_eq, ← List.head?_eq_none_iff, head?_intercalate rest h, List.head?_eq_none_iff]
  exact h

/-- A joined text ends with the end of its last part. -/
theorem getLast?_intercalate {parts : List (List Char)} (h : ∀ part ∈ parts, part ≠ [])
    {c : Char} (hc : ([sep].intercalate parts).getLast? = some c) :
    ∃ part ∈ parts, part.getLast? = some c := by
  induction parts with
  | nil => simp at hc
  | cons part rest ih =>
    cases rest with
    | nil => exact ⟨part, List.mem_cons_self, by simpa using hc⟩
    | cons next more =>
      have hne : [sep].intercalate (next :: more) ≠ [] := intercalate_ne_nil more (h next (by simp))
      rw [List.intercalate_cons_cons, List.getLast?_append, Option.or_of_isSome
        (List.getLast?_isSome.mpr hne)] at hc
      obtain ⟨last, hlast, hend⟩ := ih (fun p hp => h p (List.mem_cons_of_mem part hp)) hc
      exact ⟨last, List.mem_cons_of_mem part hlast, hend⟩

/-- Texts that are joined by a separator and have none themselves are the pieces. -/
theorem pieces_intercalate {sep : Char} {parts : List String} (hne : parts ≠ [])
    (h : ∀ part ∈ parts, sep ∉ part.toList) :
    pieces sep (String.intercalate (String.singleton sep) parts) = parts := by
  have hparts : ∀ part ∈ parts.map String.toList, sep ∉ part := List.forall_mem_map.mpr h
  have hjoined : (String.intercalate (String.singleton sep) parts).toList =
      [sep].intercalate (parts.map String.toList) := by
    rw [String.toList_intercalate, String.toList_singleton]
  unfold pieces
  rw [hjoined, List.splitOn_intercalate sep hparts (by simpa using hne), List.map_map]
  simp

/-! ## Cutting at the first separator -/

theorem cut_of_not_mem {cs : List Char} (h : sep ∉ cs) : cut sep cs = (cs, none) := by
  induction cs with
  | nil => rfl
  | cons c cs ih =>
    simp only [List.mem_cons, not_or] at h
    simp [cut, Ne.symm h.1, ih h.2]

theorem cut_append {front : List Char} (h : sep ∉ front) (rest : List Char) :
    cut sep (front ++ sep :: rest) = (front, some rest) := by
  induction front with
  | nil => simp [cut]
  | cons c front ih =>
    simp only [List.mem_cons, not_or] at h
    simp [cut, Ne.symm h.1, ih h.2]

/-- A text without separators is not cut, and any other at its first one. -/
theorem cut_cases (sep : Char) (cs : List Char) :
    (sep ∉ cs ∧ cut sep cs = (cs, none)) ∨
      ∃ front rest, cs = front ++ sep :: rest ∧ sep ∉ front ∧
        cut sep cs = (front, some rest) := by
  by_cases h : sep ∈ cs
  · obtain ⟨front, rest, rfl, hfront⟩ := List.eq_append_cons_of_mem h
    exact .inr ⟨front, rest, rfl, hfront, cut_append hfront rest⟩
  · exact .inl ⟨h, cut_of_not_mem h⟩

end Lakehouse.Text
