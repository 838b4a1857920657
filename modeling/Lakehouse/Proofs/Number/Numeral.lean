import Lakehouse.Number.Bounded
import Lakehouse.Number.Numeral
import Lakehouse.Proofs.Except

/-!
# Writing and reading numerals

A numeral that is written denotes its number, and reading it gives the number back.

* `Numeral.eq_of_ofDigitChars_eq`: digits are told by their number and how many they are.
* `Numeral.ofDigitChars_padded`, `Numeral.length_padded`: zeros in front change the width only.
* `Numeral.accumulate_eq`: digits are read as the number they denote, up to the limit.
* `Numeral.readInt32_ofInt`, `Numeral.readInt64_ofInt`: integers are read as they were written.
* `Numeral.Denotes`: the texts that are numerals, and the numbers they denote.
* `Numeral.readChars_eq_ok_iff`: exactly the numerals within their bounds are read.
-/

namespace Lakehouse.Numeral

/-! ## Digits and their number -/

theorem ofDigitChars_lt {ds : List Char} (h : ∀ c ∈ ds, c.isDigit = true) :
    Nat.ofDigitChars 10 ds 0 < 10 ^ ds.length := by
  induction ds with
  | nil => simp
  | cons c ds ih =>
    have hc := Char.isDigit_iff_toNat.mp (h c List.mem_cons_self)
    have hlow : 48 ≤ c.toNat := hc.1
    have hhigh : c.toNat ≤ 57 := hc.2
    have hrest := ih fun d hd => h d (List.mem_cons_of_mem c hd)
    rw [Nat.ofDigitChars_cons, Nat.ofDigitChars_eq_ofDigitChars_zero, List.length_cons,
      Nat.pow_succ]
    have hdigit : 10 * 0 + (c.toNat - '0'.toNat) ≤ 9 := by
      simp only [Char.reduceToNat]
      omega
    have hmul := Nat.mul_le_mul_left (10 ^ ds.length) hdigit
    omega

/-- **Digits are told by their number and how many they are.** -/
theorem eq_of_ofDigitChars_eq {as bs : List Char} (hlength : as.length = bs.length)
    (has : ∀ c ∈ as, c.isDigit = true) (hbs : ∀ c ∈ bs, c.isDigit = true)
    (hvalue : Nat.ofDigitChars 10 as 0 = Nat.ofDigitChars 10 bs 0) : as = bs := by
  induction as generalizing bs with
  | nil => exact (List.length_eq_zero_iff.mp hlength.symm).symm
  | cons a as ih =>
    cases bs with
    | nil => cases hlength
    | cons b bs =>
      obtain ⟨ha, has⟩ := List.forall_mem_cons.mp has
      obtain ⟨hb, hbs⟩ := List.forall_mem_cons.mp hbs
      have hrest : as.length = bs.length := Nat.succ.inj hlength
      have hless := ofDigitChars_lt has
      have hless' := ofDigitChars_lt hbs
      rw [hrest] at hless
      rw [Nat.ofDigitChars_cons, Nat.ofDigitChars_cons,
        Nat.ofDigitChars_eq_ofDigitChars_zero (l := as),
        Nat.ofDigitChars_eq_ofDigitChars_zero (l := bs), hrest] at hvalue
      -- the first digit is the quotient by the value of its place, the others are the remainder
      have hfirst := congrArg (· / 10 ^ bs.length) hvalue
      have hothers := congrArg (· % 10 ^ bs.length) hvalue
      have hpos : 0 < 10 ^ bs.length := Nat.pow_pos (by omega)
      simp only [Nat.mul_add_div hpos, Nat.div_eq_of_lt hless, Nat.div_eq_of_lt hless',
        Nat.mul_add_mod, Nat.mod_eq_of_lt hless, Nat.mod_eq_of_lt hless'] at hfirst hothers
      have hlow : '0'.toNat ≤ a.toNat := (Char.isDigit_iff_toNat.mp ha).1
      have hlow' : '0'.toNat ≤ b.toNat := (Char.isDigit_iff_toNat.mp hb).1
      rw [ih hrest has hbs hothers, Char.toNat_inj.mp (show a.toNat = b.toNat by omega)]

/-! ## Writing -/

theorem isDigit_of_mem_digits {n : Nat} {c : Char} (h : c ∈ digits n) : c.isDigit = true :=
  Nat.isDigit_of_mem_toDigits (by omega) (by omega) h

theorem ofDigitChars_digits (n : Nat) : Nat.ofDigitChars 10 (digits n) 0 = n :=
  Nat.ofDigitChars_ten_toDigits

theorem digits_eq_cons (n : Nat) : ∃ c cs, digits n = c :: cs ∧ c.isDigit = true := by
  have hne : digits n ≠ [] := Nat.toDigits_ne_nil
  obtain ⟨c, cs, hcs⟩ := List.exists_cons_of_ne_nil hne
  exact ⟨c, cs, hcs, isDigit_of_mem_digits (hcs ▸ List.mem_cons_self)⟩

/-- Digits do not begin with a minus sign. -/
theorem digits_append_ne_minus (n : Nat) (rest cs : List Char) : digits n ++ rest ≠ '-' :: cs := by
  intro h
  obtain ⟨c, ds, hds, hc⟩ := digits_eq_cons n
  rw [hds, List.cons_append] at h
  rw [(List.cons.inj h).1] at hc
  cases hc

/-- Digits do not begin with a zero, unless they are one. -/
theorem eq_nil_of_digits_eq_zero_cons {n : Nat} {ds : List Char}
    (h : digits n = '0' :: ds) : ds = [] := by
  refine Classical.byContradiction fun hne => ?_
  have hpos : 0 < ds.length := List.length_pos_iff.mpr hne
  have hdigits : ∀ c ∈ ds, c.isDigit = true := fun c hc =>
    isDigit_of_mem_digits (h ▸ List.mem_cons_of_mem '0' hc)
  have hvalue : Nat.ofDigitChars 10 ds 0 = n := by
    rw [← ofDigitChars_digits n, h, Nat.ofDigitChars_cons]
    rfl
  have hlt : n < 10 ^ ds.length := hvalue ▸ ofDigitChars_lt hdigits
  have hle := (Nat.length_toDigits_le_iff (b := 10) (by omega) hpos).mpr hlt
  change (digits n).length ≤ ds.length at hle
  rw [h, List.length_cons] at hle
  omega

theorem length_digits_pos (n : Nat) : 0 < (digits n).length :=
  List.length_pos_iff.mpr Nat.toDigits_ne_nil

theorem lt_pow_length_digits (n : Nat) : n < 10 ^ (digits n).length :=
  (Nat.length_toDigits_le_iff (by decide) (length_digits_pos n)).mp (Nat.le_refl _)

theorem pow_length_digits_le {n : Nat} (hn : 0 < n) : 10 ^ ((digits n).length - 1) ≤ n := by
  rcases Nat.eq_zero_or_pos ((digits n).length - 1) with hzero | hpos
  · rw [hzero]
    exact hn
  · refine Nat.le_of_not_lt fun hless => ?_
    have hlength : (digits n).length ≤ (digits n).length - 1 :=
      (Nat.length_toDigits_le_iff (by decide) hpos).mpr hless
    omega

theorem isDigit_of_mem_padded {width n : Nat} {c : Char} (h : c ∈ padded width n) :
    c.isDigit = true := by
  unfold padded at h
  rcases List.mem_append.mp h with hzero | hdigit
  · rw [List.eq_of_mem_replicate hzero]
    rfl
  · exact isDigit_of_mem_digits hdigit

theorem padded_ne_nil (width n : Nat) : padded width n ≠ [] :=
  List.append_ne_nil_of_right_ne_nil _ Nat.toDigits_ne_nil

theorem padded_eq_cons (width n : Nat) :
    ∃ c cs, padded width n = c :: cs ∧ c.isDigit = true := by
  obtain ⟨c, cs, hcs⟩ := List.exists_cons_of_ne_nil (padded_ne_nil width n)
  exact ⟨c, cs, hcs, isDigit_of_mem_padded (hcs ▸ List.mem_cons_self)⟩

/-- Zeros in front do not change the number. -/
theorem ofDigitChars_padded (width n : Nat) : Nat.ofDigitChars 10 (padded width n) 0 = n := by
  unfold padded
  rw [Nat.ofDigitChars_append, Nat.ofDigitChars_replicate_zero, Nat.mul_zero, ofDigitChars_digits]

theorem length_padded_eq_max (width n : Nat) :
    (padded width n).length = max width (digits n).length := by
  unfold padded
  rw [List.length_append, List.length_replicate]
  omega

/-- A number that fits is written in exactly the given width. -/
theorem length_padded {width n : Nat} (hwidth : 0 < width) (h : n < 10 ^ width) :
    (padded width n).length = width := by
  have hle : (digits n).length ≤ width := (Nat.length_toDigits_le_iff (by omega) hwidth).mpr h
  rw [length_padded_eq_max]
  omega

/-- **Digits are what their number is written as**, at their length. -/
theorem padded_ofDigitChars {width : Nat} {ds : List Char} (hwidth : 0 < width)
    (hlength : ds.length = width) (hdigits : ∀ c ∈ ds, c.isDigit = true) :
    padded width (Nat.ofDigitChars 10 ds 0) = ds := by
  have hbound : Nat.ofDigitChars 10 ds 0 < 10 ^ width := hlength ▸ ofDigitChars_lt hdigits
  have hsame : (padded width (Nat.ofDigitChars 10 ds 0)).length = ds.length :=
    (length_padded hwidth hbound).trans hlength.symm
  exact eq_of_ofDigitChars_eq hsame (fun c hc => isDigit_of_mem_padded hc) hdigits
    (ofDigitChars_padded width _)

/-- A numeral is read off its first character: a minus sign or a digit. -/
theorem signed_eq_cons (n : Int) :
    ∃ c cs, signed n = c :: cs ∧ (c = '-' ∨ c.isDigit = true) := by
  unfold signed
  split
  · exact ⟨'-', _, rfl, .inl rfl⟩
  · obtain ⟨c, cs, hcs, hc⟩ := digits_eq_cons n.natAbs
    exact ⟨c, cs, hcs, .inr hc⟩

/-- A numeral holds digits, behind a minus sign if it has one. -/
theorem mem_signed {n : Int} {c : Char} (h : c ∈ signed n) : c = '-' ∨ c.isDigit = true := by
  unfold signed at h
  split at h
  · rcases List.mem_cons.mp h with hsign | hdigit
    · exact .inl hsign
    · exact .inr (isDigit_of_mem_digits hdigit)
  · exact .inr (isDigit_of_mem_digits h)

/-! ## Reading -/

/-- The number of some digits is that of the rest behind the first of them. -/
theorem ofDigitChars_cons (c : Char) (cs : List Char) (acc : Nat) :
    Nat.ofDigitChars 10 (c :: cs) acc = Nat.ofDigitChars 10 cs (acc * 10 + digitValue c) := by
  rw [Nat.ofDigitChars_cons, Nat.mul_comm 10 acc]
  rfl

theorem le_ofDigitChars (cs : List Char) (acc : Nat) : acc ≤ Nat.ofDigitChars 10 cs acc := by
  rw [Nat.ofDigitChars_eq_ofDigitChars_zero]
  have hpow : 1 * acc ≤ 10 ^ cs.length * acc :=
    Nat.mul_le_mul_right acc (Nat.pow_pos (by omega))
  omega

theorem accumulate_cons_eq_ok {limit acc n : Nat} {overflow : Problem} {c : Char}
    {cs : List Char} : accumulate limit overflow acc (c :: cs) = .ok n ↔
      c.isDigit = true ∧ acc * 10 + digitValue c ≤ limit ∧
      accumulate limit overflow (acc * 10 + digitValue c) cs = .ok n := by
  simp only [accumulate, ite_error_eq_ok, ite_else_error_eq_ok, Nat.not_lt]

/-- **Digits are read as the number they denote**, up to the limit. -/
theorem accumulate_eq {limit : Nat} {overflow : Problem} {cs : List Char} {acc : Nat}
    (hdigits : ∀ c ∈ cs, c.isDigit = true) (hlimit : Nat.ofDigitChars 10 cs acc ≤ limit) :
    accumulate limit overflow acc cs = .ok (Nat.ofDigitChars 10 cs acc) := by
  induction cs generalizing acc with
  | nil => rfl
  | cons c cs ih =>
    rw [ofDigitChars_cons] at hlimit ⊢
    have hfits : acc * 10 + digitValue c ≤ limit := Nat.le_trans (le_ofDigitChars cs _) hlimit
    rw [accumulate_cons_eq_ok]
    exact ⟨hdigits c List.mem_cons_self, hfits,
      ih (fun d hd => hdigits d (List.mem_cons_of_mem c hd)) hlimit⟩

/-- What was accumulated is the number of the digits, and there is nothing but digits. -/
theorem accumulate_eq_ok {limit n : Nat} {overflow : Problem} {cs : List Char} {acc : Nat}
    (h : accumulate limit overflow acc cs = .ok n) :
    n = Nat.ofDigitChars 10 cs acc ∧ ∀ c ∈ cs, c.isDigit = true := by
  induction cs generalizing acc with
  | nil => exact ⟨(Except.ok.inj h).symm, by simp⟩
  | cons c cs ih =>
    obtain ⟨hdigit, -, h⟩ := accumulate_cons_eq_ok.mp h
    obtain ⟨hn, hdigits⟩ := ih h
    rw [ofDigitChars_cons]
    exact ⟨hn, List.forall_mem_cons.mpr ⟨hdigit, hdigits⟩⟩

/-- Without a sign the digits are the numeral. -/
theorem readChars_of_isDigit {below above : Nat} {c : Char} (cs : List Char)
    (hc : c.isDigit = true) : readChars below above (c :: cs) =
      (accumulate above .tooLarge 0 (c :: cs)).map fun n => (n : Int) := by
  have hminus : c ≠ '-' := fun h => absurd (h ▸ hc) (by decide)
  have hplus : c ≠ '+' := fun h => absurd (h ▸ hc) (by decide)
  unfold readChars
  split <;> simp_all

/-- **A numeral within its bounds is read as it was written.** -/
theorem readChars_signed {below above : Nat} {n : Int} (hlow : -(below : Int) ≤ n)
    (hhigh : n ≤ above) : readChars below above (signed n) = .ok n := by
  obtain ⟨c, cs, hcs, -⟩ := digits_eq_cons n.natAbs
  have hdigits : ∀ d ∈ c :: cs, d.isDigit = true := fun d hd =>
    isDigit_of_mem_digits (hcs ▸ hd)
  have hvalue : Nat.ofDigitChars 10 (c :: cs) 0 = n.natAbs := by
    rw [← hcs]
    exact ofDigitChars_digits n.natAbs
  unfold signed
  by_cases hneg : n < 0
  · have habs : -(n.natAbs : Int) = n := by omega
    rw [if_pos hneg, hcs]
    simp only [readChars]
    rw [accumulate_eq hdigits (by omega), hvalue]
    exact congrArg Except.ok habs
  · have habs : (n.natAbs : Int) = n := by omega
    rw [if_neg hneg, hcs, readChars_of_isDigit cs (hdigits c List.mem_cons_self),
      accumulate_eq hdigits (by omega), hvalue]
    exact congrArg Except.ok habs

theorem read_ofInt {below above : Nat} {n : Int} (hlow : -(below : Int) ≤ n) (hhigh : n ≤ above) :
    read below above (ofInt n) = .ok n := by
  unfold read ofInt
  rw [String.toList_ofList]
  exact readChars_signed hlow hhigh

/-- A 32-bit integer is read as it was written. -/
theorem readInt32_ofInt (n : Int32) : readInt32 (ofInt n.toInt) = .ok n := by
  have hlow := n.le_toInt
  have hhigh := n.toInt_lt
  unfold readInt32
  rw [read_ofInt (by omega) (by omega)]
  simp only [Except.map, Int32.ofInt_toInt]

/-- A 64-bit integer is read as it was written. -/
theorem readInt64_ofInt (n : Int64) : readInt64 (ofInt n.toInt) = .ok n := by
  have hlow := n.le_toInt
  have hhigh := n.toInt_lt
  unfold readInt64
  rw [read_ofInt (by omega) (by omega)]
  simp only [Except.map, Int64.ofInt_toInt]

/-! ## What is read -/

/-- What was accumulated stays below the limit. -/
theorem accumulate_le {limit n : Nat} {overflow : Problem} {cs : List Char} {acc : Nat}
    (hacc : acc ≤ limit) (h : accumulate limit overflow acc cs = .ok n) : n ≤ limit := by
  induction cs generalizing acc with
  | nil => exact Except.ok.inj h ▸ hacc
  | cons c cs ih =>
    obtain ⟨-, hfits, h⟩ := accumulate_cons_eq_ok.mp h
    exact ih hfits h

/-- **Exactly the digits within the limit are accumulated**, as the number they denote. -/
theorem accumulate_eq_ok_iff {limit n : Nat} {overflow : Problem} {cs : List Char} :
    accumulate limit overflow 0 cs = .ok n ↔
      (∀ c ∈ cs, c.isDigit = true) ∧ Nat.ofDigitChars 10 cs 0 = n ∧ n ≤ limit := by
  constructor
  · intro h
    obtain ⟨hn, hdigits⟩ := accumulate_eq_ok h
    exact ⟨hdigits, hn.symm, accumulate_le (Nat.zero_le limit) h⟩
  · rintro ⟨hdigits, rfl, hlimit⟩
    exact accumulate_eq hdigits hlimit

/-- An optional sign, at least one digit, and the number they denote. Zeros in front are digits like
all others. -/
inductive Denotes : List Char → Int → Prop where
  | plain {ds : List Char} (hne : ds ≠ []) (hdigits : ∀ c ∈ ds, c.isDigit = true) :
      Denotes ds (Nat.ofDigitChars 10 ds 0)
  | plus {ds : List Char} (hne : ds ≠ []) (hdigits : ∀ c ∈ ds, c.isDigit = true) :
      Denotes ('+' :: ds) (Nat.ofDigitChars 10 ds 0)
  | minus {ds : List Char} (hne : ds ≠ []) (hdigits : ∀ c ∈ ds, c.isDigit = true) :
      Denotes ('-' :: ds) (-(Nat.ofDigitChars 10 ds 0 : Int))

variable {below above : Nat} {n : Int}

/-- A number that was read is an integer first and takes its sign then. -/
theorem map_bind_cast (x : Except Problem Nat) (f : Int → Int) :
    (do return ((← x : Nat) : Int) : Except Problem Int).map f = x.map fun k : Nat => f k := by
  cases x <;> rfl

theorem readChars_minus {ds : List Char} (hne : ds ≠ []) : readChars below above ('-' :: ds) =
    (accumulate below .tooSmall 0 ds).map fun k : Nat => -(k : Int) := by
  obtain ⟨d, ds, rfl⟩ := List.exists_cons_of_ne_nil hne
  exact map_bind_cast _ _

theorem readChars_plus {ds : List Char} (hne : ds ≠ []) : readChars below above ('+' :: ds) =
    (accumulate above .tooLarge 0 ds).map fun k : Nat => (k : Int) := by
  obtain ⟨d, ds, rfl⟩ := List.exists_cons_of_ne_nil hne
  exact map_bind_cast _ _

/-- Without a sign in front the characters are the digits. -/
theorem readChars_plain {c : Char} (ds : List Char) (hminus : c ≠ '-') (hplus : c ≠ '+') :
    readChars below above (c :: ds) =
      (accumulate above .tooLarge 0 (c :: ds)).map fun k : Nat => (k : Int) := by
  rw [← map_bind_cast _ fun n => n]
  unfold readChars
  split <;> simp_all

/-- **Exactly the numerals within their bounds are read**, as the number they denote. -/
theorem readChars_eq_ok_iff {cs : List Char} :
    readChars below above cs = .ok n ↔ Denotes cs n ∧ -(below : Int) ≤ n ∧ n ≤ above := by
  constructor
  · intro h
    cases cs with
    | nil => cases h
    | cons c ds =>
      by_cases hsign : c = '-' ∨ c = '+'
      · have hne : ds ≠ [] := by
          rintro rfl
          rcases hsign with rfl | rfl <;> cases h
        rcases hsign with rfl | rfl
        · rw [readChars_minus hne] at h
          obtain ⟨k, hk, rfl⟩ := map_eq_ok.mp h
          obtain ⟨hdigits, rfl, hlimit⟩ := accumulate_eq_ok_iff.mp hk
          exact ⟨.minus hne hdigits, by omega, by omega⟩
        · rw [readChars_plus hne] at h
          obtain ⟨k, hk, rfl⟩ := map_eq_ok.mp h
          obtain ⟨hdigits, rfl, hlimit⟩ := accumulate_eq_ok_iff.mp hk
          exact ⟨.plus hne hdigits, by omega, by omega⟩
      · obtain ⟨hminus, hplus⟩ := not_or.mp hsign
        rw [readChars_plain ds hminus hplus] at h
        obtain ⟨k, hk, rfl⟩ := map_eq_ok.mp h
        obtain ⟨hdigits, rfl, hlimit⟩ := accumulate_eq_ok_iff.mp hk
        exact ⟨.plain (List.cons_ne_nil c ds) hdigits, by omega, by omega⟩
  · rintro ⟨hnumeral, hlow, hhigh⟩
    cases hnumeral with
    | plain hne hdigits =>
      obtain ⟨c, ds, rfl⟩ := List.exists_cons_of_ne_nil hne
      rw [readChars_of_isDigit ds (hdigits c List.mem_cons_self), accumulate_eq hdigits (by omega)]
      rfl
    | plus hne hdigits =>
      rw [readChars_plus hne, accumulate_eq hdigits (by omega)]
      rfl
    | minus hne hdigits =>
      rw [readChars_minus hne, accumulate_eq hdigits (by omega)]
      rfl

/-- A 32-bit integer is read from the numerals of its number. -/
theorem readInt32_eq_ok_iff {s : String} {m : Int32} :
    readInt32 s = .ok m ↔ Denotes s.toList m.toInt := by
  have hlow := m.le_toInt
  have hhigh := m.toInt_lt
  unfold readInt32 read
  rw [map_eq_ok]
  constructor
  · rintro ⟨n, hn, rfl⟩
    obtain ⟨hnumeral, hnlow, hnhigh⟩ := readChars_eq_ok_iff.mp hn
    rwa [Int32.toInt_ofInt_of_le (by omega) (by omega)]
  · intro h
    exact ⟨m.toInt, readChars_eq_ok_iff.mpr ⟨h, by omega, by omega⟩, Int32.ofInt_toInt m⟩

/-- A 64-bit integer is read from the numerals of its number. -/
theorem readInt64_eq_ok_iff {s : String} {m : Int64} :
    readInt64 s = .ok m ↔ Denotes s.toList m.toInt := by
  have hlow := m.le_toInt
  have hhigh := m.toInt_lt
  unfold readInt64 read
  rw [map_eq_ok]
  constructor
  · rintro ⟨n, hn, rfl⟩
    obtain ⟨hnumeral, hnlow, hnhigh⟩ := readChars_eq_ok_iff.mp hn
    rwa [Int64.toInt_ofInt_of_le (by omega) (by omega)]
  · intro h
    exact ⟨m.toInt, readChars_eq_ok_iff.mpr ⟨h, by omega, by omega⟩, Int64.ofInt_toInt m⟩

end Lakehouse.Numeral
