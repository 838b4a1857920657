import Lakehouse.Decimal.Reader
import Lakehouse.Proofs.Decimal.Exact
import Lakehouse.Proofs.Except
import Lakehouse.Proofs.Number.Numeral
import Mathlib.Data.List.TakeWhile
import Mathlib.Tactic.FieldSimp
import Mathlib.Tactic.NormNum

/-!
# Which texts are read exactly

A text denotes a number by its digits, whatever their number. Reading it gives that number exactly
when decimals can hold it; every other number is rounded.

* `Decimal.textNumber`: the number that a text denotes.
* `Decimal.Holds`: the numbers that decimals can hold.
* `Decimal.Scan.scanned_of_digits`: what one character of the digits does.
* `Decimal.Scan.digits_exact`: one pass over the digits drops nothing but zeros of a number that can
  be held.
* `Decimal.readPlain_exact_iff`, `Decimal.readChars_exact_iff`: a text is read as its number if and
  only if decimals can hold it, and for a scientific text its base as well.
-/

namespace Lakehouse.Decimal

/-! ## The number of a text -/

/-- The digits of a text. -/
def digitsOf (cs : List Char) : List Char := cs.filter Char.isDigit

/-- The number of digits behind the first point. -/
def placesOf (cs : List Char) : Nat := (digitsOf (cs.dropWhile (· != '.'))).length

/-- The sign of a text. -/
def signOf (cs : List Char) : ℚ := if cs.head? = some '-' then -1 else 1

/-- The number that a plain decimal denotes. -/
def plainNumber (cs : List Char) : ℚ :=
  signOf cs * (Nat.ofDigitChars 10 (digitsOf cs) 0 / 10 ^ placesOf cs)

/-- What stands in front of the exponent mark. -/
def baseOf (cs : List Char) : List Char := cs.takeWhile (!isExponentMark ·)

/-- The exponent behind the exponent mark; zero without one. -/
def exponentOf (cs : List Char) : Int :=
  match cs.dropWhile (!isExponentMark ·) with
  | [] => 0
  | _ :: '-' :: ds => -(Nat.ofDigitChars 10 (digitsOf ds) 0 : Int)
  | _ :: ds => Nat.ofDigitChars 10 (digitsOf ds) 0

/-- **The number that a text denotes**, plain or scientific. -/
def textNumber (cs : List Char) : ℚ := plainNumber (baseOf cs) * 10 ^ exponentOf cs

/-- The numbers that decimals can hold. -/
def Holds (q : ℚ) : Prop := ∃ d : Decimal, d.number = q

theorem number_of_make? {coefficient : Int} {scale : Nat} {d : Decimal}
    (h : make? coefficient scale = some d) : d.number = coefficient / 10 ^ scale := by
  obtain ⟨rfl, rfl⟩ := make?_eq_some.mp h
  rfl

/-- The number `value / 10 ^ places` can be held, in whole numbers. -/
def Fits (value places : Nat) : Prop :=
  ∃ c k, c < capacity ∧ k ≤ maxScale ∧ value * 10 ^ k = c * 10 ^ places

theorem Holds.fits {value places : Nat} {s : ℚ} (hs : s = 1 ∨ s = -1)
    (h : Holds (s * (value / 10 ^ places))) : Fits value places := by
  obtain ⟨d, hd⟩ := h
  refine ⟨d.coefficient.natAbs, d.scale, d.coefficient_lt, d.scale_le, ?_⟩
  have hcross : (d.coefficient : ℚ) * 10 ^ places = s * (value * 10 ^ d.scale) := by
    have hscale : (10 : ℚ) ^ d.scale ≠ 0 := by positivity
    have hplaces : (10 : ℚ) ^ places ≠ 0 := by positivity
    unfold number at hd
    rw [div_eq_iff hscale] at hd
    rw [hd]
    field_simp
  have habs : (d.coefficient * 10 ^ places).natAbs = ((value : Int) * 10 ^ d.scale).natAbs := by
    rcases hs with rfl | rfl
    · rw [one_mul] at hcross
      exact congrArg Int.natAbs (by exact_mod_cast hcross)
    · rw [neg_one_mul] at hcross
      rw [← Int.natAbs_neg ((value : Int) * 10 ^ d.scale)]
      exact congrArg Int.natAbs (by exact_mod_cast hcross)
  simpa [Int.natAbs_mul, Int.natAbs_pow] using habs.symm

/-! ## Digits that are dropped -/

/-- **What is dropped of a number that can be held is zero**: the last `n` digits of
`value * 10 ^ n + rest`, if all places are taken before them, or if one more digit passes the
capacity. -/
theorem dropped_eq_zero {value rest n places : Nat} (hrest : rest < 10 ^ n)
    (hfits : Fits (value * 10 ^ n + rest) (places + n))
    (hfull : maxScale ≤ places ∨ (0 < n ∧ capacity * 10 ^ (n - 1) ≤ value * 10 ^ n + rest)) :
    rest = 0 := by
  obtain ⟨c, k, hc, hk, hholds⟩ := hfits
  rcases Nat.lt_or_ge places k with hlt | hle
  · -- with more places than were taken, the number would pass the capacity
    exfalso
    obtain ⟨hn, hcapacity⟩ := hfull.resolve_left (by omega)
    obtain ⟨j, rfl⟩ : ∃ j, k = places + (j + 1) := ⟨k - places - 1, by omega⟩
    obtain ⟨m, rfl⟩ : ∃ m, n = m + 1 := ⟨n - 1, by omega⟩
    have hpos : 0 < 10 ^ places := Nat.pow_pos (by omega)
    have hcancel : (value * 10 ^ (m + 1) + rest) * 10 ^ j = c * 10 ^ m := by
      apply Nat.eq_of_mul_eq_mul_right (Nat.mul_pos hpos (show 0 < 10 by omega))
      calc (value * 10 ^ (m + 1) + rest) * 10 ^ j * (10 ^ places * 10)
          = (value * 10 ^ (m + 1) + rest) * 10 ^ (places + (j + 1)) := by ring
        _ = c * 10 ^ (places + (m + 1)) := hholds
        _ = c * 10 ^ m * (10 ^ places * 10) := by ring
    have hj : 1 ≤ 10 ^ j := Nat.pow_pos (by omega)
    have hbelow : c * 10 ^ m < capacity * 10 ^ m :=
      Nat.mul_lt_mul_of_pos_right hc (Nat.pow_pos (by omega))
    have habove : value * 10 ^ (m + 1) + rest ≤ (value * 10 ^ (m + 1) + rest) * 10 ^ j :=
      Nat.le_mul_of_pos_right _ hj
    rw [Nat.add_sub_cancel] at hcapacity
    omega
  · -- otherwise the number has no more places than were taken
    obtain ⟨j, rfl⟩ : ∃ j, places = k + j := ⟨places - k, by omega⟩
    have hcancel : value * 10 ^ n + rest = c * 10 ^ j * 10 ^ n := by
      apply Nat.eq_of_mul_eq_mul_right (Nat.pow_pos (show 0 < 10 by omega) : 0 < 10 ^ k)
      rw [hholds]
      ring
    have hdvd : 10 ^ n ∣ rest :=
      (Nat.dvd_add_right (Nat.dvd_mul_left _ value)).mp (hcancel ▸ Nat.dvd_mul_left _ _)
    exact Nat.eq_zero_of_dvd_of_lt hdvd hrest

/-! ## Scanning digits -/

namespace Scan

/-- The value when every digit of the rest is taken. -/
def total (s : Scan) (cs : List Char) : Nat := Nat.ofDigitChars 10 (digitsOf cs) s.value

/-- The places when every digit of the rest is taken. -/
def totalPlaces (s : Scan) (cs : List Char) : Nat :=
  s.places + if s.pointed then (digitsOf cs).length else placesOf cs

/-- Places are taken behind a point only. -/
def Placed (s : Scan) : Prop := s.pointed = false → s.places = 0

theorem isDigit_of_mem_digitsOf {cs : List Char} : ∀ c ∈ digitsOf cs, c.isDigit = true :=
  fun _ hc => (List.mem_filter.mp hc).2

theorem digitsOf_cons {c : Char} (cs : List Char) (h : c.isDigit = true) :
    digitsOf (c :: cs) = c :: digitsOf cs := List.filter_cons_of_pos h

theorem digitsOf_cons_other {c : Char} (cs : List Char) (h : c.isDigit = false) :
    digitsOf (c :: cs) = digitsOf cs := List.filter_cons_of_neg (by simp [h])

theorem placesOf_cons {c : Char} (cs : List Char) (h : c ≠ '.') :
    placesOf (c :: cs) = placesOf cs := by
  unfold placesOf
  rw [List.dropWhile_cons_of_pos (by simpa using h)]

theorem total_push (s : Scan) {c : Char} (cs : List Char) (h : c.isDigit = true) :
    (s.push c).total cs = s.total (c :: cs) := by
  unfold total
  rw [digitsOf_cons cs h, Numeral.ofDigitChars_cons]
  rfl

theorem totalPlaces_push {s : Scan} (hs : s.Placed) {c : Char} (cs : List Char)
    (h : c.isDigit = true) : (s.push c).totalPlaces cs = s.totalPlaces (c :: cs) := by
  have hpoint : c ≠ '.' := fun hc => absurd (hc ▸ h) (by decide)
  unfold totalPlaces
  rw [digitsOf_cons cs h, placesOf_cons cs hpoint]
  cases hpointed : s.pointed with
  | true =>
    simp only [push, hpointed, if_true, List.length_cons]
    omega
  | false =>
    simp only [push, hpointed, hs hpointed]
    rfl

theorem placed_push (s : Scan) (c : Char) : (s.push c).Placed := by
  intro h
  have hpointed : s.pointed = false := h
  simp [push, hpointed]

/-- Behind all places, or where one more digit passes the capacity, a number that can be held has
only zeros. -/
theorem rest_eq_zero {s : Scan} (hpointed : s.pointed = true) {cs : List Char}
    (hfits : Fits (s.total cs) (s.totalPlaces cs))
    (hfull : maxScale ≤ s.places ∨
      ∃ c ds, digitsOf cs = c :: ds ∧ capacity ≤ s.next c) :
    Nat.ofDigitChars 10 (digitsOf cs) 0 = 0 := by
  unfold total totalPlaces at hfits
  rw [if_pos hpointed, Nat.ofDigitChars_eq_ofDigitChars_zero, Nat.mul_comm (10 ^ _)] at hfits
  refine dropped_eq_zero (Numeral.ofDigitChars_lt isDigit_of_mem_digitsOf) hfits ?_
  rcases hfull with hplaces | ⟨d, ds, hds, hcapacity⟩
  · exact .inl hplaces
  · refine .inr ⟨by simp [hds], ?_⟩
    rw [hds, List.length_cons, Nat.add_sub_cancel, Nat.ofDigitChars_cons,
      Nat.ofDigitChars_eq_ofDigitChars_zero, pow_succ]
    unfold next Numeral.digitValue at hcapacity
    have hmul := Nat.mul_le_mul_right (10 ^ ds.length) hcapacity
    calc capacity * 10 ^ ds.length
        ≤ (s.value * 10 + (d.toNat - '0'.toNat)) * 10 ^ ds.length := hmul
      _ = s.value * (10 ^ ds.length * 10) +
          10 ^ ds.length * (10 * 0 + (d.toNat - '0'.toNat)) := by ring
      _ ≤ _ := by omega

/-- Where only zeros are left, the scan has the whole number. -/
theorem total_of_rest_eq_zero {s : Scan} (hpointed : s.pointed = true) {cs : List Char}
    (h : Nat.ofDigitChars 10 (digitsOf cs) 0 = 0) :
    s.value * 10 ^ s.totalPlaces cs = s.total cs * 10 ^ s.places := by
  unfold total totalPlaces
  rw [if_pos hpointed, Nat.ofDigitChars_eq_ofDigitChars_zero, h, pow_add]
  ring

theorem checkRest_eq_ok {s s' : Scan} {cs : List Char} (h : s.checkRest cs = .ok s') : s' = s := by
  induction cs with
  | nil => exact (Except.ok.inj h).symm
  | cons c cs ih =>
    unfold checkRest at h
    exact ih (ite_else_error_eq_ok.mp h).2

/-- A zero that does not fit rounds nothing. -/
theorem round_exact {s t s' : Scan} (hpointed : s.pointed = true) {c : Char} {cs : List Char}
    (hdigit : c.isDigit = true) (hfits : Fits (s.total (c :: cs)) (s.totalPlaces (c :: cs)))
    (hfull : maxScale ≤ s.places ∨ capacity ≤ s.next c)
    (hround : s.round c = .ok t) (hrest : t.checkRest cs = .ok s') :
    s'.value * 10 ^ s.totalPlaces (c :: cs) = s.total (c :: cs) * 10 ^ s'.places := by
  have hzero := rest_eq_zero hpointed hfits
    (hfull.imp id fun hcapacity => ⟨c, _, digitsOf_cons cs hdigit, hcapacity⟩)
  have hvalue : Numeral.digitValue c = 0 := by
    have hle := Numeral.le_ofDigitChars (digitsOf cs) (10 * 0 + (c.toNat - '0'.toNat))
    rw [digitsOf_cons cs hdigit, Nat.ofDigitChars_cons] at hzero
    unfold Numeral.digitValue
    omega
  unfold round at hround
  rw [if_pos (by omega)] at hround
  cases hround
  rw [checkRest_eq_ok hrest]
  exact total_of_rest_eq_zero hpointed hzero

/-- What scanning a text from its first character on comes to. -/
inductive Scanned (s s' : Scan) (cs : List Char) : Char → Prop where
  | digit {c : Char} : c.isDigit = true → (s.push c).digits cs = .ok s' → Scanned s s' cs c
  | rounded {c : Char} {t : Scan} : c.isDigit = true → s.pointed = true →
      (maxScale ≤ s.places ∨ capacity ≤ s.next c) → s.round c = .ok t →
      t.checkRest cs = .ok s' → Scanned s s' cs c
  | point : s.pointed = false → ({ s with pointed := true } : Scan).digits cs = .ok s' →
      Scanned s s' cs '.'
  | separator : s.digits cs = .ok s' → Scanned s s' cs '_'
  | full : s.pointed = true → maxScale ≤ s.places → s.checkRest cs = .ok s' → Scanned s s' cs '_'

theorem isFull_iff {s : Scan} : s.isFull = true ↔ s.pointed = true ∧ maxScale ≤ s.places := by
  simp [isFull]

theorem scanned_of_digits {s s' : Scan} {c : Char} {cs : List Char}
    (h : s.digits (c :: cs) = .ok s') : Scanned s s' cs c := by
  unfold digits at h
  by_cases hdigit : c.isDigit = true
  · rw [if_pos hdigit] at h
    by_cases hfull : s.isFull = true
    · rw [if_pos hfull] at h
      obtain ⟨hpointed, hplaces⟩ := isFull_iff.mp hfull
      obtain ⟨t, hround, hrest⟩ := bind_eq_ok.mp h
      exact .rounded hdigit hpointed (.inl hplaces) hround hrest
    · rw [if_neg hfull] at h
      by_cases hroom : s.next c < capacity
      · rw [if_pos hroom] at h
        exact .digit hdigit h
      · rw [if_neg hroom] at h
        split at h
        · rename_i hpointed
          obtain ⟨t, hround, hrest⟩ := bind_eq_ok.mp h
          exact .rounded hdigit hpointed (.inr (Nat.not_lt.mp hroom)) hround hrest
        · cases h
  · rw [if_neg hdigit] at h
    by_cases hpoint : c = '.' ∧ (!s.pointed) = true
    · rw [if_pos hpoint] at h
      obtain ⟨rfl, hunpointed⟩ := hpoint
      exact .point (by simpa using hunpointed) h
    · rw [if_neg hpoint] at h
      by_cases hseparator : c = '_' ∧ s.started = true
      · rw [if_pos hseparator] at h
        obtain ⟨rfl, -⟩ := hseparator
        split at h
        · rename_i hfull
          obtain ⟨hpointed, hplaces⟩ := isFull_iff.mp ((Bool.and_eq_true _ _).mp hfull).1
          exact .full hpointed hplaces h
        · exact .separator h
      · rw [if_neg hseparator] at h
        cases h

/-- A point in front of the rest changes nothing about its digits. -/
theorem total_point (s : Scan) (cs : List Char) :
    ({ s with pointed := true } : Scan).total cs = s.total ('.' :: cs) := by
  unfold total
  rw [digitsOf_cons_other cs (by decide)]

theorem totalPlaces_point {s : Scan} (h : s.pointed = false) (cs : List Char) :
    ({ s with pointed := true } : Scan).totalPlaces cs = s.totalPlaces ('.' :: cs) := by
  unfold totalPlaces placesOf
  rw [h, List.dropWhile_cons_of_neg (by decide), digitsOf_cons_other cs (by decide)]
  rfl

/-- A separator in front of the rest changes nothing. -/
theorem total_separator (s : Scan) (cs : List Char) : s.total ('_' :: cs) = s.total cs := by
  unfold total
  rw [digitsOf_cons_other cs (by decide)]

theorem totalPlaces_separator (s : Scan) (cs : List Char) :
    s.totalPlaces ('_' :: cs) = s.totalPlaces cs := by
  unfold totalPlaces
  rw [digitsOf_cons_other cs (by decide), placesOf_cons cs (by decide)]

/-- **One pass over the digits drops nothing but zeros** of a number that can be held. -/
theorem digits_exact {s s' : Scan} {cs : List Char} (hs : s.Placed) (h : s.digits cs = .ok s')
    (hfits : Fits (s.total cs) (s.totalPlaces cs)) :
    s'.value * 10 ^ s.totalPlaces cs = s.total cs * 10 ^ s'.places := by
  -- on the text: the scan may change at each character, the number it comes to does not
  induction cs generalizing s with
  | nil =>
    unfold digits at h
    split at h
    · cases h
      simp [total, totalPlaces, digitsOf, placesOf]
    · cases h
  | cons c cs ih =>
    cases scanned_of_digits h with
    | digit hdigit hrest =>
      rw [← total_push s cs hdigit, ← totalPlaces_push hs cs hdigit] at hfits ⊢
      exact ih (placed_push s c) hrest hfits
    | rounded hdigit hpointed hfull hround hrest =>
      exact round_exact hpointed hdigit hfits hfull hround hrest
    | point hunpointed hrest =>
      rw [← total_point, ← totalPlaces_point hunpointed] at hfits ⊢
      exact ih (fun hfalse => nomatch hfalse) hrest hfits
    | separator hrest =>
      rw [total_separator, totalPlaces_separator] at hfits ⊢
      exact ih hs hrest hfits
    | full hpointed hplaces hrest =>
      rw [total_separator, totalPlaces_separator] at hfits ⊢
      rw [checkRest_eq_ok hrest]
      exact total_of_rest_eq_zero hpointed (rest_eq_zero hpointed hfits (.inl hplaces))

/-- The characters of a plain decimal behind its sign. -/
def isPart (c : Char) : Bool := c.isDigit || c == '.' || c == '_'

theorem isPart_of_isDigit {c : Char} (h : c.isDigit = true) : isPart c = true := by
  simp [isPart, h]

theorem checkRest_isPart {s s' : Scan} {cs : List Char} (h : s.checkRest cs = .ok s') :
    ∀ c ∈ cs, isPart c = true := by
  induction cs with
  | nil => simp
  | cons c cs ih =>
    unfold checkRest at h
    obtain ⟨hc, h⟩ := ite_else_error_eq_ok.mp h
    refine List.forall_mem_cons.mpr ⟨?_, ih h⟩
    unfold isPart
    grind

/-- Nothing but digits, points and separators is scanned. -/
theorem digits_isPart {s s' : Scan} {cs : List Char} (h : s.digits cs = .ok s') :
    ∀ c ∈ cs, isPart c = true := by
  induction cs generalizing s with
  | nil => simp
  | cons c cs ih =>
    refine List.forall_mem_cons.mpr ?_
    cases scanned_of_digits h with
    | digit hdigit hrest => exact ⟨isPart_of_isDigit hdigit, ih hrest⟩
    | rounded hdigit _ _ _ hrest => exact ⟨isPart_of_isDigit hdigit, checkRest_isPart hrest⟩
    | point _ hrest => exact ⟨rfl, ih hrest⟩
    | separator hrest => exact ⟨rfl, ih hrest⟩
    | full _ _ hrest => exact ⟨rfl, checkRest_isPart hrest⟩

end Scan

/-! ## Plain decimals -/

theorem number_decimal {s : Scan} {negative : Bool} {d : Decimal}
    (h : s.decimal negative = .ok d) :
    d.number = (if negative then -1 else 1) * (s.value / 10 ^ s.places : ℚ) := by
  unfold Scan.decimal at h
  split at h
  · rename_i e hmake
    cases h
    rw [number_of_make? hmake]
    cases negative with
    | true =>
      simp only [if_true]
      push_cast
      ring
    | false =>
      simp only [Bool.false_eq_true, if_false, one_mul]
      push_cast
      rfl
  · cases h

theorem isExponentMark_of_isPart {c : Char} (h : Scan.isPart c = true) :
    isExponentMark c = false := by
  have hletters : Scan.isPart 'e' = false ∧ Scan.isPart 'E' = false := by decide
  unfold isExponentMark
  rw [Bool.or_eq_false_iff, beq_eq_false_iff_ne, beq_eq_false_iff_ne]
  constructor
  · rintro rfl
    simp [hletters] at h
  · rintro rfl
    simp [hletters] at h

/-- A plain decimal is a scan under a sign. -/
theorem readPlain_eq_ok {cs : List Char} {d : Decimal} (h : readPlain cs = .ok d) :
    ∃ rest s, Scan.start.digits rest = .ok s ∧
      d.number = signOf cs * (s.value / 10 ^ s.places) ∧
      digitsOf cs = digitsOf rest ∧ placesOf cs = placesOf rest ∧
      ∀ c ∈ cs, isExponentMark c = false := by
  unfold readPlain at h
  split at h
  · cases h
  · rename_i rest
    obtain ⟨s, hscan, hdecimal⟩ := bind_eq_ok.mp h
    refine ⟨rest, s, hscan, ?_, rfl, rfl, ?_⟩
    · rw [number_decimal hdecimal]
      rfl
    · exact List.forall_mem_cons.mpr
        ⟨rfl, fun c hc => isExponentMark_of_isPart (Scan.digits_isPart hscan c hc)⟩
  · rename_i rest
    obtain ⟨s, hscan, hdecimal⟩ := bind_eq_ok.mp h
    refine ⟨rest, s, hscan, ?_, rfl, rfl, ?_⟩
    · rw [number_decimal hdecimal]
      rfl
    · exact List.forall_mem_cons.mpr
        ⟨rfl, fun c hc => isExponentMark_of_isPart (Scan.digits_isPart hscan c hc)⟩
  · rename_i hminus _
    obtain ⟨s, hscan, hdecimal⟩ := bind_eq_ok.mp h
    refine ⟨cs, s, hscan, ?_, rfl, rfl, fun c hc =>
      isExponentMark_of_isPart (Scan.digits_isPart hscan c hc)⟩
    have hsign : signOf cs = 1 := by
      unfold signOf
      refine if_neg fun hhead => ?_
      obtain ⟨rest, hcs⟩ := List.head?_eq_some_iff.mp hhead
      exact hminus rest hcs
    rw [number_decimal hdecimal, hsign]
    rfl

/-- **A plain decimal is read exactly if and only if decimals can hold its number.** -/
theorem readPlain_exact_iff {cs : List Char} {d : Decimal} (h : readPlain cs = .ok d) :
    d.number = plainNumber cs ↔ Holds (plainNumber cs) := by
  refine ⟨fun hexact => ⟨d, hexact⟩, fun hholds => ?_⟩
  obtain ⟨rest, s, hscan, hnumber, hdigits, hplaces, -⟩ := readPlain_eq_ok h
  have hsign : signOf cs = 1 ∨ signOf cs = -1 := by
    unfold signOf
    split
    · exact .inr rfl
    · exact .inl rfl
  have htotal : Scan.start.total rest = Nat.ofDigitChars 10 (digitsOf cs) 0 := by
    rw [hdigits]
    rfl
  have hplaces : Scan.start.totalPlaces rest = placesOf cs := by
    rw [hplaces]
    exact Nat.zero_add _
  have hexact := Scan.digits_exact (fun _ => rfl) hscan (by
    rw [htotal, hplaces]
    exact hholds.fits hsign)
  rw [htotal, hplaces] at hexact
  have hratio : (s.value : ℚ) / 10 ^ s.places =
      Nat.ofDigitChars 10 (digitsOf cs) 0 / 10 ^ placesOf cs := by
    rw [div_eq_div_iff (by positivity) (by positivity)]
    exact_mod_cast hexact
  rw [hnumber, hratio]
  rfl

/-! ## Scientific decimals -/

theorem fit_eq_ok {problem : Problem} {coefficient : Int} {scale : Nat} {d : Decimal}
    (h : fit problem coefficient scale = .ok d) : make? coefficient scale = some d := by
  unfold fit at h
  split at h
  · rename_i e hmake
    cases h
    exact hmake
  · cases h

/-- A positive exponent is taken exactly. -/
theorem shiftUp_exact {d e : Decimal} {n : Nat} (h : d.shiftUp n = .ok e) :
    e.number = d.number * 10 ^ n := by
  unfold shiftUp at h
  split at h
  · rename_i hle
    rw [number_of_make? (fit_eq_ok h)]
    obtain ⟨k, hk⟩ := Nat.exists_eq_add_of_le hle
    unfold number
    rw [hk, Nat.add_sub_cancel_left, pow_add]
    field_simp
  · rename_i hgt
    split at h
    · cases h
    · rw [number_of_make? (fit_eq_ok h)]
      obtain ⟨k, hk⟩ := Nat.exists_eq_add_of_le (Nat.le_of_lt (Nat.not_le.mp hgt))
      unfold number
      rw [hk, Nat.add_sub_cancel_left, pow_add]
      push_cast
      field_simp

/-- A multiple of a power of ten loses nothing with its last places. -/
theorem dropPlaces_mul (t : Int) (places : Nat) : dropPlaces (t * 10 ^ places) places = t := by
  have hpos : 0 < 10 ^ places := Nat.pow_pos (show 0 < 10 by omega)
  have hdiv : (2 * (t.natAbs * 10 ^ places) + 10 ^ places) / (2 * 10 ^ places) = t.natAbs := by
    have hsum : 2 * (t.natAbs * 10 ^ places) + 10 ^ places =
        10 ^ places + 2 * 10 ^ places * t.natAbs := by ring
    rw [hsum, Nat.add_mul_div_left _ _ (by omega), Nat.div_eq_of_lt (by omega), Nat.zero_add]
  have hsign : t * 10 ^ places < 0 ↔ t < 0 := by
    refine ⟨fun h => ?_, fun h => Int.mul_neg_of_neg_of_pos h (by positivity)⟩
    exact Int.not_le.mp fun hle => absurd h (Int.not_lt.mpr (by positivity))
  unfold dropPlaces
  simp only [Int.natAbs_mul, Int.natAbs_pow, Int.reduceAbs, hdiv, hsign]
  split <;> omega

/-- A number that can be held has no digits behind the last place. -/
theorem Holds.dvd {coefficient : Int} {places : Nat}
    (h : Holds (coefficient / 10 ^ (maxScale + places))) :
    ∃ t : Int, coefficient = t * 10 ^ places := by
  obtain ⟨d, hd⟩ := h
  have hscale : d.scale ≤ maxScale := d.scale_le
  obtain ⟨k, hk⟩ := Nat.exists_eq_add_of_le hscale
  refine ⟨d.coefficient * 10 ^ k, ?_⟩
  unfold number at hd
  rw [div_eq_div_iff (by positivity) (by positivity), hk] at hd
  have hcross : d.coefficient * 10 ^ (d.scale + k + places) = coefficient * 10 ^ d.scale := by
    exact_mod_cast hd
  apply Int.eq_of_mul_eq_mul_right (show (10 : Int) ^ d.scale ≠ 0 by positivity)
  rw [← hcross]
  ring

/-- A negative exponent leaves a decimal of at least as many places. -/
theorem le_scale_of_shiftDown {d e : Decimal} {n : Nat} (h : d.shiftDown n = .ok e) :
    n ≤ e.scale := by
  unfold shiftDown at h
  split at h
  · cases h
  · rename_i hn
    split at h
    · rw [(make?_eq_some.mp (fit_eq_ok h)).2]
      omega
    · rw [(make?_eq_some.mp (fit_eq_ok h)).2]
      omega

/-- **A negative exponent is taken exactly** when decimals can hold the result. -/
theorem shiftDown_exact {d e : Decimal} {n : Nat} (h : d.shiftDown n = .ok e)
    (hholds : Holds (d.number / 10 ^ n)) : e.number = d.number / 10 ^ n := by
  have hnumber : d.number / 10 ^ n = d.coefficient / 10 ^ (d.scale + n) := by
    unfold number
    rw [div_div, pow_add]
  rw [hnumber] at hholds ⊢
  unfold shiftDown at h
  split at h
  · cases h
  · rename_i hn
    split at h
    · rename_i hwide
      obtain ⟨places, hplaces⟩ := Nat.exists_eq_add_of_le (Nat.le_of_lt hwide)
      rw [hplaces] at hholds ⊢
      obtain ⟨t, ht⟩ := hholds.dvd
      have hdrop : d.scale - (maxScale - n) = places := by omega
      rw [number_of_make? (fit_eq_ok h), hdrop, ht, dropPlaces_mul, pow_add]
      push_cast
      field_simp
    · exact number_of_make? (fit_eq_ok h)

/-- A decimal of enough places can be multiplied by a power of ten. -/
theorem holds_number_mul {d : Decimal} {n : Nat} (h : n ≤ d.scale) : Holds (d.number * 10 ^ n) := by
  refine ⟨⟨d.coefficient, d.scale - n, d.coefficient_lt,
    Nat.le_trans (Nat.sub_le _ _) d.scale_le⟩, ?_⟩
  obtain ⟨k, hk⟩ := Nat.exists_eq_add_of_le h
  unfold number
  simp only
  rw [hk, Nat.add_sub_cancel_left, pow_add]
  field_simp

theorem digitsOf_eq_self {cs : List Char} (h : ∀ c ∈ cs, c.isDigit = true) : digitsOf cs = cs :=
  List.filter_eq_self.mpr h

/-- The exponent that is read is the number of its digits. -/
theorem readExponent_eq_ok {cs : List Char} {n : Nat} (h : readExponent cs = .ok n) :
    n = Nat.ofDigitChars 10 (digitsOf cs) 0 := by
  unfold readExponent at h
  split at h
  · rename_i m hread
    cases h
    unfold Numeral.readNatural at hread
    split at hread
    · cases hread
    · cases hread
    · obtain ⟨hn, hdigits⟩ := Numeral.accumulate_eq_ok hread
      rw [Scan.digitsOf_cons_other _ (by decide), digitsOf_eq_self hdigits]
      exact hn
    · obtain ⟨hn, hdigits⟩ := Numeral.accumulate_eq_ok hread
      rw [digitsOf_eq_self hdigits]
      exact hn
  · cases h

/-- A text without an exponent mark denotes what it denotes as a plain decimal. -/
theorem textNumber_of_plain {cs : List Char} (h : ∀ c ∈ cs, isExponentMark c = false) :
    baseOf cs = cs ∧ textNumber cs = plainNumber cs := by
  have hplain : ∀ c ∈ cs, (!isExponentMark c) = true := fun c hc => by rw [h c hc]; rfl
  have hbase : baseOf cs = cs := by
    exact List.takeWhile_eq_self_iff.mpr hplain
  have hexponent : exponentOf cs = 0 := by
    unfold exponentOf
    rw [List.dropWhile_eq_nil_iff.mpr hplain]
  refine ⟨hbase, ?_⟩
  unfold textNumber
  rw [hbase, hexponent, zpow_zero, mul_one]

/-- A scientific decimal is a base and an exponent, up or down. -/
theorem readScientific_eq_ok {cs : List Char} {d : Decimal} (h : readScientific cs = .ok d) :
    ∃ base n, readPlain (baseOf cs) = .ok base ∧
      ((base.shiftUp n = .ok d ∧ exponentOf cs = n) ∨
        (base.shiftDown n = .ok d ∧ exponentOf cs = -(n : Int))) := by
  unfold readScientific at h
  split at h
  · cases h
  · rename_i mark exponent hmark
    obtain ⟨base, hbase, h⟩ := bind_eq_ok.mp h
    split at h
    · rename_i ds _
      obtain ⟨n, hn, hshift⟩ := bind_eq_ok.mp h
      refine ⟨base, n, hbase, .inr ⟨hshift, ?_⟩⟩
      unfold exponentOf
      rw [hmark, readExponent_eq_ok hn]
      rfl
    · rename_i hminus
      obtain ⟨n, hn, hshift⟩ := bind_eq_ok.mp h
      refine ⟨base, n, hbase, .inl ⟨hshift, ?_⟩⟩
      unfold exponentOf
      rw [hmark, readExponent_eq_ok hn]
      split
      · contradiction
      · rename_i heq
        exact absurd (List.cons.inj heq).2 (hminus _)
      · rename_i heq
        rw [(List.cons.inj heq).2]

/-- **A text is read exactly if and only if decimals can hold its number**, and the base in front
of its exponent as well. -/
theorem readChars_exact_iff {cs : List Char} {d : Decimal} (h : readChars cs = .ok d) :
    d.number = textNumber cs ↔ Holds (plainNumber (baseOf cs)) ∧ Holds (textNumber cs) := by
  unfold readChars at h
  split at h
  · rename_i e hplain
    cases h
    obtain ⟨-, -, -, -, -, -, hmarks⟩ := readPlain_eq_ok hplain
    obtain ⟨hbase, hnumber⟩ := textNumber_of_plain hmarks
    rw [hbase, hnumber, readPlain_exact_iff hplain, and_self_iff]
  · obtain ⟨base, n, hbase, ⟨hshift, hexponent⟩ | ⟨hshift, hexponent⟩⟩ := readScientific_eq_ok h
    · have hwhole : textNumber cs = plainNumber (baseOf cs) * 10 ^ n := by
        unfold textNumber
        rw [hexponent, zpow_natCast]
      have hresult := shiftUp_exact hshift
      rw [hwhole]
      constructor
      · intro hexact
        refine ⟨⟨base, ?_⟩, d, hexact⟩
        rw [hresult] at hexact
        exact mul_right_cancel₀ (by positivity) hexact
      · rintro ⟨hholds, -⟩
        rw [hresult, (readPlain_exact_iff hbase).mpr hholds]
    · have hwhole : textNumber cs = plainNumber (baseOf cs) / 10 ^ n := by
        unfold textNumber
        rw [hexponent, zpow_neg, zpow_natCast]
        rfl
      rw [hwhole]
      constructor
      · intro hexact
        refine ⟨?_, d, hexact⟩
        have hback : d.number * 10 ^ n = plainNumber (baseOf cs) := by
          rw [hexact]
          field_simp
        rw [← hback]
        exact holds_number_mul (le_scale_of_shiftDown hshift)
      · rintro ⟨hholds, hresult⟩
        rw [← (readPlain_exact_iff hbase).mpr hholds] at hresult ⊢
        exact shiftDown_exact hshift hresult

end Lakehouse.Decimal
