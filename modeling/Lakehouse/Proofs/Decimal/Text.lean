import Lakehouse.Proofs.Decimal.Reader
import Lakehouse.Proofs.Text.Blank

/-!
# Numbers in place

A number that is written with its digits in place denotes itself, and a decimal that is written so
is read back, scale and all.

* `Decimal.textNumber_fixedChars`: what the digits in place denote.
* `Decimal.readChars_chars`: a decimal is read as it was written.
-/

namespace Lakehouse.Decimal

open Numeral

/-! ## What is denoted -/

/-- The digits of a number in place are the number's. -/
theorem digitsOf_fixed (places n : Nat) : digitsOf (fixed places n) = padded (places + 1) n := by
  have hdigits : ∀ c ∈ padded (places + 1) n, c.isDigit = true := fun _ hc =>
    isDigit_of_mem_padded hc
  unfold fixed
  simp only
  split
  · exact digitsOf_eq_self hdigits
  · generalize hcut : (padded (places + 1) n).length - places = cut
    unfold digitsOf
    rw [List.filter_append, List.filter_cons_of_neg (by decide), ← List.filter_append,
      List.take_append_drop]
    exact digitsOf_eq_self hdigits

/-- The places of a number in place are those that were asked for. -/
theorem placesOf_fixed (places n : Nat) : placesOf (fixed places n) = places := by
  have hdigits : ∀ c ∈ padded (places + 1) n, c.isDigit = true := fun _ hc =>
    isDigit_of_mem_padded hc
  have hpoint : ∀ c ∈ padded (places + 1) n, (c != '.') = true := fun c hc => by
    have hc := hdigits c hc
    simp only [bne_iff_ne]
    rintro rfl
    exact absurd hc (by decide)
  have hlength := length_padded_eq_max (places + 1) n
  unfold placesOf fixed
  simp only
  split
  · rename_i hzero
    rw [List.dropWhile_eq_nil_iff.mpr hpoint, hzero]
    rfl
  · rw [List.dropWhile_append_of_pos fun c hc => hpoint c (List.mem_of_mem_take hc),
      List.dropWhile_cons_of_neg (by decide), Scan.digitsOf_cons_other _ (by decide),
      digitsOf_eq_self fun c hc => hdigits c (List.mem_of_mem_drop hc), List.length_drop]
    omega

/-- A number in place is written with digits and a point. -/
theorem mem_fixed {places n : Nat} {c : Char} (h : c ∈ fixed places n) :
    c = '.' ∨ c.isDigit = true := by
  unfold fixed at h
  simp only at h
  split at h
  · exact .inr (isDigit_of_mem_padded h)
  · rcases List.mem_append.mp h with htake | hrest
    · exact .inr (isDigit_of_mem_padded (List.mem_of_mem_take htake))
    · rcases List.mem_cons.mp hrest with hpoint | hdrop
      · exact .inl hpoint
      · exact .inr (isDigit_of_mem_padded (List.mem_of_mem_drop hdrop))

/-- The characters of a number in place, under a sign. -/
def fixedChars (negative : Bool) (places n : Nat) : List Char :=
  (if negative then ['-'] else []) ++ fixed places n

theorem mem_fixedChars {negative : Bool} {places n : Nat} {c : Char}
    (h : c ∈ fixedChars negative places n) : c = '-' ∨ c = '.' ∨ c.isDigit = true := by
  rcases List.mem_append.mp h with hsign | hnumber
  · cases negative with
    | true => exact .inl (List.mem_singleton.mp hsign)
    | false => exact absurd hsign List.not_mem_nil
  · exact .inr (mem_fixed hnumber)

theorem isExponentMark_of_isDigit {c : Char} (h : c.isDigit = true) :
    isExponentMark c = false :=
  isExponentMark_of_isPart (Scan.isPart_of_isDigit h)

/-- A number in place has no sign of its own. -/
theorem signOf_fixed (places n : Nat) : signOf (fixed places n) = 1 := by
  unfold signOf
  refine if_neg fun hhead => ?_
  rcases mem_fixed (List.mem_of_mem_head? hhead) with hpoint | hdigit
  · exact absurd hpoint (by decide)
  · exact absurd hdigit (by decide)

/-- **A number written in place denotes itself**, and it has no exponent. -/
theorem textNumber_fixedChars (negative : Bool) (places n : Nat) :
    baseOf (fixedChars negative places n) = fixedChars negative places n ∧
      textNumber (fixedChars negative places n) =
        (if negative then -1 else 1) * (n / 10 ^ places : ℚ) ∧
      plainNumber (fixedChars negative places n) =
        (if negative then -1 else 1) * (n / 10 ^ places : ℚ) := by
  have hmarks : ∀ c ∈ fixedChars negative places n, isExponentMark c = false := fun c hc => by
    rcases mem_fixedChars hc with rfl | rfl | hdigit
    · rfl
    · rfl
    · exact isExponentMark_of_isDigit hdigit
  obtain ⟨hbase, hnumber⟩ := textNumber_of_plain hmarks
  have hplain : plainNumber (fixedChars negative places n) =
      (if negative then -1 else 1) * (n / 10 ^ places : ℚ) := by
    have hvalue := ofDigitChars_padded (places + 1) n
    unfold plainNumber fixedChars
    cases negative with
    | true =>
      simp only [if_true, List.singleton_append]
      rw [Scan.digitsOf_cons_other _ (by decide), Scan.placesOf_cons _ (by decide),
        digitsOf_fixed, placesOf_fixed, hvalue]
      rfl
    | false =>
      simp only [Bool.false_eq_true, if_false, List.nil_append]
      rw [signOf_fixed, digitsOf_fixed, placesOf_fixed, hvalue]
  exact ⟨hbase, hnumber.trans hplain, hplain⟩

/-- A number in place has no blanks. -/
theorem isBlank_of_mem_fixedChars {negative : Bool} {places n : Nat} {c : Char}
    (h : c ∈ fixedChars negative places n) : Text.isBlank c = false := by
  rcases mem_fixedChars h with rfl | rfl | hdigit
  · rfl
  · rfl
  · exact Text.isBlank_of_isDigit hdigit

/-! ## What is read -/

/-- A decimal is written as its coefficient in place. -/
theorem chars_eq (d : Decimal) :
    d.chars = fixedChars (decide (d.coefficient < 0)) d.scale d.coefficient.natAbs := by
  unfold chars fixedChars
  congr 1
  by_cases h : d.coefficient < 0 <;> simp [h]

namespace Scan

/-- Digits that stay below the capacity, with room for their places, are scanned as their
number. -/
theorem digits_append {s : Scan} {ds : List Char} (rest : List Char) (hs : s.Placed)
    (hdigits : ∀ c ∈ ds, c.isDigit = true)
    (hroom : s.pointed = true → s.places + ds.length ≤ maxScale)
    (hcapacity : Nat.ofDigitChars 10 ds s.value < capacity) :
    ∃ t : Scan, s.digits (ds ++ rest) = t.digits rest ∧ t.value = Nat.ofDigitChars 10 ds s.value ∧
      t.places = (if s.pointed then s.places + ds.length else 0) ∧ t.pointed = s.pointed ∧
      (ds ≠ [] ∨ s.started = true → t.started = true) := by
  induction ds generalizing s with
  | nil =>
    refine ⟨s, rfl, rfl, ?_, rfl, by simp⟩
    cases hpointed : s.pointed with
    | true => rfl
    | false => exact hs hpointed
  | cons c ds ih =>
    have hdigit := hdigits c List.mem_cons_self
    have hvalue : s.value * 10 + digitValue c = (s.push c).value := rfl
    have hpushed : (s.push c).pointed = s.pointed := rfl
    rw [ofDigitChars_cons, hvalue] at hcapacity ⊢
    have hfull : ¬ s.isFull = true := by
      intro hfull
      obtain ⟨hpointed, hplaces⟩ := isFull_iff.mp hfull
      have := hroom hpointed
      rw [List.length_cons] at this
      omega
    have hnext : s.next c < capacity :=
      Nat.lt_of_le_of_lt (le_ofDigitChars ds (s.push c).value) hcapacity
    have hstep : s.digits (c :: ds ++ rest) = (s.push c).digits (ds ++ rest) := by
      rw [List.cons_append, digits, if_pos hdigit, if_neg hfull, if_pos hnext]
    have hplaces : (s.push c).places = if s.pointed then s.places + 1 else 0 := rfl
    obtain ⟨t, ht, htvalue, htplaces, htpointed, hstarted⟩ := ih (placed_push s c)
      (fun d hd => hdigits d (List.mem_cons_of_mem c hd))
      (fun hpointed => by
        have := hroom hpointed
        rw [hplaces, if_pos (hpushed ▸ hpointed)]
        rw [List.length_cons] at this
        omega) hcapacity
    refine ⟨t, hstep.trans ht, htvalue, ?_, htpointed, fun _ => hstarted (.inr rfl)⟩
    rw [htplaces, hpushed, hplaces, List.length_cons]
    split
    · omega
    · rfl

/-- Digits around a point are scanned as their number, with the places behind the point. -/
theorem digits_point (front back : List Char) (hfront : ∀ c ∈ front, c.isDigit = true)
    (hback : ∀ c ∈ back, c.isDigit = true) (hne : front ≠ []) (hroom : back.length ≤ maxScale)
    (hcapacity : Nat.ofDigitChars 10 (front ++ back) 0 < capacity) :
    ∃ s, start.digits (front ++ '.' :: back) = .ok s ∧
      s.value = Nat.ofDigitChars 10 (front ++ back) 0 ∧ s.places = back.length := by
  rw [Nat.ofDigitChars_append] at hcapacity ⊢
  obtain ⟨s, hs, hsvalue, hsplaces, hspointed, hsstarted⟩ := digits_append (s := start)
    ('.' :: back) (fun _ => rfl) hfront (fun h => nomatch h)
    (Nat.lt_of_le_of_lt (le_ofDigitChars back _) hcapacity)
  have hsvalue : s.value = Nat.ofDigitChars 10 front 0 := hsvalue
  have hsplaces : s.places = 0 := hsplaces
  have hspointed : s.pointed = false := hspointed
  have hpoint : s.digits ('.' :: back) = ({ s with pointed := true } : Scan).digits back := by
    rw [digits, if_neg (by decide), if_pos ⟨rfl, by simp [hspointed]⟩]
  obtain ⟨t, ht, htvalue, htplaces, -, htstarted⟩ := digits_append
    (s := { s with pointed := true }) [] (fun hfalse => nomatch hfalse) hback
    (fun _ => by simp only [hsplaces]; omega) (by simp only [hsvalue]; exact hcapacity)
  rw [List.append_nil] at ht
  refine ⟨t, ?_, by rw [htvalue, hsvalue], ?_⟩
  · rw [hs, hpoint, ht, digits, if_pos (htstarted (.inr (hsstarted (.inl hne))))]
  · rw [htplaces, if_pos rfl]
    simp only [hsplaces]
    omega

/-- **A number in place is scanned as itself**, when it and its places fit. -/
theorem digits_fixed {places n : Nat} (hplaces : places ≤ maxScale) (hn : n < capacity) :
    ∃ s, start.digits (fixed places n) = .ok s ∧ s.value = n ∧ s.places = places := by
  have hdigits : ∀ c ∈ padded (places + 1) n, c.isDigit = true := fun _ hc =>
    isDigit_of_mem_padded hc
  have hvalue := ofDigitChars_padded (places + 1) n
  have hlength := length_padded_eq_max (places + 1) n
  unfold fixed
  simp only
  by_cases hzero : places = 0
  · rw [if_pos hzero]
    obtain ⟨s, hs, hsvalue, hsplaces, -, hstarted⟩ := digits_append (s := start) []
      (fun _ => rfl) hdigits (fun h => nomatch h)
      (Nat.lt_of_le_of_lt (Nat.le_of_eq hvalue) hn)
    rw [List.append_nil] at hs
    refine ⟨s, ?_, hsvalue.trans hvalue, hsplaces.trans hzero.symm⟩
    rw [hs, digits, if_pos (hstarted (.inl (padded_ne_nil _ _)))]
  · rw [if_neg hzero]
    obtain ⟨s, hs, hsvalue, hsplaces⟩ := digits_point
      ((padded (places + 1) n).take ((padded (places + 1) n).length - places))
      ((padded (places + 1) n).drop ((padded (places + 1) n).length - places))
      (fun c hc => hdigits c (List.mem_of_mem_take hc))
      (fun c hc => hdigits c (List.mem_of_mem_drop hc))
      (by rw [ne_eq, ← List.length_eq_zero_iff, List.length_take]; omega)
      (by rw [List.length_drop]; omega) (by rw [List.take_append_drop, hvalue]; exact hn)
    rw [List.take_append_drop, hvalue] at hsvalue
    refine ⟨s, hs, hsvalue, ?_⟩
    rw [hsplaces, List.length_drop]
    omega

end Scan

theorem decimal_eq_ok {s : Scan} {negative : Bool} {d : Decimal}
    (hcoefficient : d.coefficient = if negative then -(s.value : Int) else s.value)
    (hscale : d.scale = s.places) : s.decimal negative = .ok d := by
  unfold Scan.decimal
  rw [make?_eq_some.mpr ⟨hcoefficient, hscale⟩]

/-- **A decimal is read as it was written**, with its scale. -/
theorem readChars_chars (d : Decimal) : readChars d.chars = .ok d := by
  obtain ⟨s, hscan, hvalue, hplaces⟩ := Scan.digits_fixed d.scale_le d.coefficient_lt
  have hplain : readPlain d.chars = .ok d := by
    rw [chars_eq]
    unfold fixedChars
    by_cases hneg : d.coefficient < 0
    · simp only [hneg, decide_true, if_true, List.singleton_append]
      rw [readPlain, hscan]
      exact decimal_eq_ok (by rw [if_pos rfl, hvalue]; omega) hplaces.symm
    · simp only [hneg, decide_false, Bool.false_eq_true, if_false, List.nil_append]
      have hsign : ∀ c ∈ fixed d.scale d.coefficient.natAbs, c ≠ '-' ∧ c ≠ '+' := fun c hc => by
        rcases mem_fixed hc with rfl | hdigit
        · decide
        · refine ⟨?_, ?_⟩ <;> rintro rfl <;> exact absurd hdigit (by decide)
      have hread : (do (← Scan.start.digits (fixed d.scale d.coefficient.natAbs)).decimal false) =
          (.ok d : Except Problem Decimal) := by
        rw [hscan]
        exact decimal_eq_ok (by rw [if_neg (by decide), hvalue]; omega) hplaces.symm
      unfold readPlain
      split
      · rename_i hempty
        rw [hempty] at hscan
        cases hscan
      · rename_i hfixed
        exact absurd rfl (hsign '-' (hfixed ▸ List.mem_cons_self)).1
      · rename_i hfixed
        exact absurd rfl (hsign '+' (hfixed ▸ List.mem_cons_self)).2
      · exact hread
  unfold readChars
  rw [hplain]

end Lakehouse.Decimal
