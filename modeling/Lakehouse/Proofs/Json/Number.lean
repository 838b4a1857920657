import Lakehouse.Json.Number
import Lakehouse.Proofs.Json.RoundTrip

/-!
# Literals of floating-point numbers

A decimal is written as digits with a point, with an exponent, or with both. A reader takes the
digits as a significand and where the point stands as an exponent; but for a zero behind the point
these are the decimal's own.

* `Json.FloatLiteral`: the parts of a literal that is no integer.
* `FloatLiteral.literal`: its characters are the literal of a number.
* `FloatLiteral.ofLiteral_signed`: it is read by its parts.
* `Json.written`: a decimal as a reader takes it from its literal.
* `Json.exists_literal`: that is how it is taken.
* `Json.reread`: the number that is read from the literal of a number.
-/

namespace Lakehouse.Json

variable {rest : List Char}

/-! ## The parts of a literal -/

/-- The parts of a literal that is no integer: the digits before the point, those behind it, and the
exponent with its sign. -/
structure FloatLiteral where
  whole : List Char
  fraction : List Char
  exponent : Option (Bool × List Char)
  whole_ne_nil : whole ≠ []
  isDigit_whole : ∀ c ∈ whole, c.isDigit = true
  no_zero : ∀ ds, whole = '0' :: ds → ds = []
  isDigit_fraction : ∀ c ∈ fraction, c.isDigit = true
  isDigit_exponent : ∀ e ∈ exponent, e.2 ≠ [] ∧ ∀ c ∈ e.2, c.isDigit = true
  no_integer : fraction ≠ [] ∨ exponent.isSome = true

/-- The point and the digits behind it. -/
def pointChars : List Char → List Char
  | [] => []
  | ds => '.' :: ds

/-- The exponent. -/
def exponentChars : Option (Bool × List Char) → List Char
  | none => []
  | some (positive, ds) => 'e' :: (if positive then '+' else '-') :: ds

/-- Whether the digits of a literal end in front of what follows. -/
def Ends (rest : List Char) : Prop := ∀ c ∈ rest.head?, c.isDigit = false ∧ c ≠ '.'

theorem Closes.ends (h : Closes rest) : Ends rest := by
  cases h <;> simp [Ends]

theorem ends_exponentChars (exponent : Option (Bool × List Char)) (h : Closes rest) :
    Ends (exponentChars exponent ++ rest) := by
  cases exponent with
  | none => exact h.ends
  | some e => simp [Ends, exponentChars]

theorem takeFraction_pointChars {ds : List Char} (hds : ∀ c ∈ ds, c.isDigit = true)
    (hrest : Ends rest) : takeFraction (pointChars ds ++ rest) = some (pointChars ds, rest) := by
  cases ds with
  | nil =>
    change takeFraction rest = some ([], rest)
    unfold takeFraction
    split
    · exact absurd rfl (hrest '.' rfl).2
    · rfl
  | cons d ds =>
    obtain ⟨htake, hdrop⟩ := span_of_head hds fun c hc => (hrest c hc).1
    simp only [pointChars, List.cons_append, takeFraction]
    rw [← List.cons_append, htake, hdrop, if_neg (List.cons_ne_nil d ds)]

theorem takeExponent_exponentChars {exponent : Option (Bool × List Char)}
    (h : ∀ e ∈ exponent, e.2 ≠ [] ∧ ∀ c ∈ e.2, c.isDigit = true) (hrest : Closes rest) :
    takeExponent (exponentChars exponent ++ rest) = some (exponentChars exponent, rest) := by
  cases exponent with
  | none => cases hrest <;> rfl
  | some e =>
    obtain ⟨positive, ds⟩ := e
    obtain ⟨hne, hds⟩ := h _ rfl
    obtain ⟨htake, hdrop⟩ := span_isDigit hds hrest
    cases positive <;> simp [takeExponent, exponentChars, takeSign, htake, hdrop, hne]

namespace FloatLiteral

variable (l : FloatLiteral) {minus : Bool}

/-- The characters of a literal. -/
def chars : List Char := l.whole ++ (pointChars l.fraction ++ exponentChars l.exponent)

theorem ends_whole (hrest : Closes rest) : ∀ c ∈
    (pointChars l.fraction ++ (exponentChars l.exponent ++ rest)).head?, c.isDigit = false := by
  cases hfraction : l.fraction with
  | nil => exact fun c hc => (ends_exponentChars l.exponent hrest c hc).1
  | cons d ds => simp [pointChars]

theorem takeUnsigned_chars (hrest : Closes rest) :
    takeUnsigned (l.chars ++ rest) = some (l.chars, rest) := by
  have hfraction : takeFraction (pointChars l.fraction ++ (exponentChars l.exponent ++ rest)) = _ :=
    takeFraction_pointChars l.isDigit_fraction (ends_exponentChars l.exponent hrest)
  have hwhole := takeWhole_append l.whole_ne_nil l.isDigit_whole l.no_zero (l.ends_whole hrest)
  simp [takeUnsigned, chars, hwhole, hfraction,
    takeExponent_exponentChars l.isDigit_exponent hrest]

/-- The characters of a literal behind its sign. -/
def signed (minus : Bool) : List Char := (if minus then ['-'] else []) ++ l.chars

theorem chars_eq_cons : ∃ c cs, l.chars = c :: cs ∧ c.isDigit = true := by
  obtain ⟨c, ds, hds⟩ := List.exists_cons_of_ne_nil l.whole_ne_nil
  refine ⟨c, ds ++ (pointChars l.fraction ++ exponentChars l.exponent), ?_,
    l.isDigit_whole c (hds ▸ List.mem_cons_self)⟩
  unfold chars
  rw [hds, List.cons_append]

theorem chars_append_ne_minus (rest cs : List Char) : l.chars ++ rest ≠ '-' :: cs := by
  obtain ⟨c, ds, hds, hc⟩ := l.chars_eq_cons
  rw [hds, List.cons_append]
  rintro h
  rw [(List.cons.inj h).1] at hc
  cases hc

/-- **Its characters are the literal of a number.** -/
theorem literal (minus : Bool) : Literal (l.signed minus) := by
  intro rest hrest
  have hunsigned := l.takeUnsigned_chars hrest
  cases minus with
  | true =>
    change (takeUnsigned (l.chars ++ rest)).map _ = _
    rw [hunsigned]
    rfl
  | false =>
    change takeNumber (l.chars ++ rest) = some (l.chars, rest)
    unfold takeNumber
    split
    · rename_i h
      exact absurd h (l.chars_append_ne_minus _ _)
    · exact hunsigned

theorem splitExponent_exponentChars (exponent : Option (Bool × List Char)) :
    Number.splitExponent (exponentChars exponent) = exponent := by
  cases exponent with
  | none => rfl
  | some e =>
    obtain ⟨positive, ds⟩ := e
    cases positive <;> rfl

/-- **A literal is read by its parts.** -/
theorem ofLiteral_signed (minus : Bool) : Number.ofLiteral (String.ofList (l.signed minus)) =
    Number.ofDigits minus l.whole l.fraction l.exponent := by
  have hends := l.ends_whole .nil
  rw [List.append_nil] at hends
  obtain ⟨htake, hdrop⟩ := span_of_head l.isDigit_whole hends
  have hsplit := splitExponent_exponentChars l.exponent
  unfold Number.ofLiteral
  rw [String.toList_ofList]
  split
  rename_i read cs hread
  obtain ⟨rfl, rfl⟩ : read = minus ∧ cs = l.chars := by
    cases minus with
    | true => exact Prod.mk.inj hread.symm
    | false =>
      split at hread
      · rename_i h
        exact absurd h (by simpa [signed] using l.chars_append_ne_minus [] _)
      · exact Prod.mk.inj hread.symm
  simp only [chars, htake, hdrop]
  cases hfraction : l.fraction with
  | cons d ds =>
    have hpoint : ∀ c ∈ d :: ds, c.isDigit = true := hfraction ▸ l.isDigit_fraction
    have hends : ∀ c ∈ (exponentChars l.exponent).head?, c.isDigit = false := fun c hc =>
      (ends_exponentChars l.exponent .nil c (by rwa [List.append_nil])).1
    obtain ⟨htake, hdrop⟩ := span_of_head hpoint hends
    simp only [pointChars, List.cons_append]
    rw [← List.cons_append, htake, hdrop, hsplit]
  | nil =>
    obtain ⟨e, he⟩ := Option.isSome_iff_exists.mp (l.no_integer.resolve_left (absurd hfraction))
    rw [he] at hsplit ⊢
    exact congrArg (Number.ofDigits _ l.whole []) hsplit

end FloatLiteral

/-! ## What the digits stand for -/

namespace Number

variable {minus : Bool} {whole fraction : List Char}

/-- Digits whose number fits into 64 bits are all taken. -/
theorem takeDigits_eq {ds : List Char} {acc : Nat}
    (h : Nat.ofDigitChars 10 ds acc < 2 ^ (64 : Nat)) :
    takeDigits acc ds = (Nat.ofDigitChars 10 ds acc, []) := by
  induction ds generalizing acc with
  | nil => rfl
  | cons c ds ih =>
    rw [Numeral.ofDigitChars_cons] at h ⊢
    have hfits := Nat.lt_of_le_of_lt (Numeral.le_ofDigitChars ds _) h
    simp only [takeDigits]
    rw [if_pos hfits, ih h]

/-- Without an exponent the point alone says which power of ten the digits are multiplied by. -/
theorem ofDigits_none (h : Nat.ofDigitChars 10 (whole ++ fraction) 0 < 2 ^ (64 : Nat)) :
    ofDigits minus whole fraction none =
      ofParts minus (Nat.ofDigitChars 10 (whole ++ fraction) 0) (-fraction.length) := by
  have happend : Nat.ofDigitChars 10 (whole ++ fraction) 0 =
      Nat.ofDigitChars 10 fraction (Nat.ofDigitChars 10 whole 0) := Nat.ofDigitChars_append 0
  rw [happend] at h ⊢
  unfold ofDigits
  rw [takeDigits_eq (Nat.lt_of_le_of_lt (Numeral.le_ofDigitChars fraction _) h)]
  simp only [takeDigits_eq h, List.length_nil]
  exact congrArg _ (by omega)

/-- With an exponent, that many places further. -/
theorem ofDigits_some {positive : Bool} {ds : List Char} {e : Int}
    (h : Nat.ofDigitChars 10 (whole ++ fraction) 0 < 2 ^ (64 : Nat))
    (he : (if positive then (Nat.ofDigitChars 10 ds 0 : Int) else -Nat.ofDigitChars 10 ds 0) = e)
    (hlow : -maxExponent ≤ e - fraction.length) (hhigh : e ≤ maxExponent) :
    ofDigits minus whole fraction (some (positive, ds)) =
      ofParts minus (Nat.ofDigitChars 10 (whole ++ fraction) 0) (e - fraction.length) := by
  have happend : Nat.ofDigitChars 10 (whole ++ fraction) 0 =
      Nat.ofDigitChars 10 fraction (Nat.ofDigitChars 10 whole 0) := Nat.ofDigitChars_append 0
  rw [happend] at h ⊢
  unfold ofDigits
  rw [takeDigits_eq (Nat.lt_of_le_of_lt (Numeral.le_ofDigitChars fraction _) h)]
  simp only [takeDigits_eq h, List.length_nil]
  generalize Nat.ofDigitChars 10 ds 0 = k at he
  cases positive with
  | true =>
    simp only [if_true] at he ⊢
    rw [if_neg (by omega)]
    exact congrArg _ (by omega)
  | false =>
    simp only [Bool.false_eq_true, if_false] at he ⊢
    rw [if_neg (by omega)]
    exact congrArg _ (by omega)

end Number

/-! ## Literals of decimals -/

/-- A decimal as a reader takes it from its literal: one that is written in place without places
behind the point has got a zero there. -/
def written (s : Scientific) : Scientific :=
  if 0 ≤ s.exponent ∧ s.exponent + (Numeral.digits s.coefficient).length - 1 ≤ 15 then
    ⟨s.coefficient * 10 ^ (s.exponent.toNat + 1), -1⟩
  else s

/-- The literal of a decimal in place, without places behind the point. -/
theorem exists_literal_whole {s : Scientific} (hexponent : 0 ≤ s.exponent)
    (hplace : s.exponent + (Numeral.digits s.coefficient).length - 1 ≤ 15) :
    ∃ l : FloatLiteral, floatDigits s = l.chars ∧ ∀ minus,
      Number.ofDigits minus l.whole l.fraction l.exponent =
        Number.ofParts minus (s.coefficient * 10 ^ (s.exponent.toNat + 1)) (-1) := by
  have hlength := Numeral.length_digits_pos s.coefficient
  have hplain : s.plain = Numeral.digits s.num := by
    have hfull : 1 - (Numeral.digits s.num).length = 0 := by
      have := Numeral.length_digits_pos s.num
      omega
    have hzero : (-s.exponent).toNat = 0 := by omega
    simp [Scientific.plain, Numeral.fixed, Numeral.padded, hzero, hfull]
  have hvalue : Nat.ofDigitChars 10 (Numeral.digits s.num ++ ['0']) 0 =
      s.coefficient * 10 ^ (s.exponent.toNat + 1) := by
    rw [Nat.ofDigitChars_append, Numeral.ofDigitChars_digits, Nat.ofDigitChars_cons,
      Nat.ofDigitChars_nil, Scientific.num, Nat.pow_succ, Nat.mul_comm, Nat.mul_assoc]
    rfl
  have hbound : s.coefficient * 10 ^ (s.exponent.toNat + 1) < 2 ^ (64 : Nat) :=
    calc s.coefficient * 10 ^ (s.exponent.toNat + 1)
        < 10 ^ (Numeral.digits s.coefficient).length * 10 ^ (s.exponent.toNat + 1) :=
          Nat.mul_lt_mul_of_pos_right (Numeral.lt_pow_length_digits _) (Nat.pow_pos (by decide))
      _ = 10 ^ ((Numeral.digits s.coefficient).length + (s.exponent.toNat + 1)) :=
          (Nat.pow_add 10 _ _).symm
      _ ≤ 10 ^ (17 : Nat) := Nat.pow_le_pow_right (by decide) (by omega)
      _ < 2 ^ (64 : Nat) := by decide
  refine ⟨⟨Numeral.digits s.num, ['0'], none, Nat.toDigits_ne_nil,
    fun _ => Numeral.isDigit_of_mem_digits, fun _ => Numeral.eq_nil_of_digits_eq_zero_cons,
    by simp, by simp, .inl (List.cons_ne_nil _ _)⟩, ?_, fun minus => ?_⟩
  · simp only [floatDigits]
    rw [if_pos (by omega), if_pos hexponent, hplain]
    rfl
  · simp only
    rw [Number.ofDigits_none (hvalue ▸ hbound), hvalue]
    rfl

/-- The literal of a decimal in place, with places behind the point. -/
theorem exists_literal_places {s : Scientific} (hexponent : s.exponent < 0)
    (hlow : -5 ≤ s.exponent + (Numeral.digits s.coefficient).length - 1)
    (hplace : s.exponent + (Numeral.digits s.coefficient).length - 1 ≤ 15)
    (hfits : s.coefficient < 2 ^ (64 : Nat)) :
    ∃ l : FloatLiteral, floatDigits s = l.chars ∧ ∀ minus,
      Number.ofDigits minus l.whole l.fraction l.exponent =
        Number.ofParts minus s.coefficient s.exponent := by
  obtain ⟨places, hplaces⟩ : ∃ places : Nat, s.exponent = -(places + 1 : Nat) :=
    ⟨(-s.exponent).toNat - 1, by omega⟩
  have hnum : s.num = s.coefficient := by
    have hzero : s.exponent.toNat = 0 := by omega
    rw [Scientific.num, hzero, Nat.pow_zero, Nat.mul_one]
  generalize hds : Numeral.padded (places + 2) s.coefficient = ds
  have hdigits : ∀ c ∈ ds, c.isDigit = true := fun c hc =>
    Numeral.isDigit_of_mem_padded (hds ▸ hc)
  have hlength : ds.length = max (places + 2) (Numeral.digits s.coefficient).length :=
    hds ▸ Numeral.length_padded_eq_max _ _
  have hplain : s.plain = ds.take (ds.length - (places + 1)) ++
      '.' :: ds.drop (ds.length - (places + 1)) := by
    have htoNat : (-s.exponent).toNat = places + 1 := by omega
    simp [Scientific.plain, Numeral.fixed, htoNat, hnum, hds]
  have hvalue : Nat.ofDigitChars 10 (ds.take (ds.length - (places + 1)) ++
      ds.drop (ds.length - (places + 1))) 0 = s.coefficient := by
    rw [List.take_append_drop, ← hds, Numeral.ofDigitChars_padded]
  have hfraction : (ds.drop (ds.length - (places + 1))).length = places + 1 := by
    rw [List.length_drop]
    omega
  refine ⟨⟨ds.take (ds.length - (places + 1)), ds.drop (ds.length - (places + 1)), none, ?_,
    fun c hc => hdigits c (List.mem_of_mem_take hc), ?_,
    fun c hc => hdigits c (List.mem_of_mem_drop hc), by simp, .inl ?_⟩, ?_, fun minus => ?_⟩
  · refine List.ne_nil_of_length_pos ?_
    rw [List.length_take]
    omega
  · intro zs hzs
    have hzeros : zs.length + 1 = ds.length - (places + 1) := by
      rw [← List.length_cons (a := '0'), ← hzs, List.length_take]
      omega
    by_cases hfull : (Numeral.digits s.coefficient).length ≤ places + 2
    · exact List.length_eq_zero_iff.mp (by omega)
    · -- nothing was filled up, and digits do not begin with a zero
      have hnone : places + 2 - (Numeral.digits s.coefficient).length = 0 := by omega
      have hwhole : Numeral.digits s.coefficient = ds := by
        rw [← hds, Numeral.padded, hnone, List.replicate_zero, List.nil_append]
      have hfirst : ds = '0' :: (zs ++ ds.drop (ds.length - (places + 1))) := by
        rw [← List.cons_append, ← hzs, List.take_append_drop]
      have hnil := Numeral.eq_nil_of_digits_eq_zero_cons (hwhole.trans hfirst)
      exact (List.append_eq_nil_iff.mp hnil).1
  · exact List.ne_nil_of_length_pos (by omega)
  · simp only [floatDigits]
    rw [if_pos (by omega), if_neg (by omega), hplain, FloatLiteral.chars]
    simp only [exponentChars, List.append_nil]
    cases hcons : ds.drop (ds.length - (places + 1)) with
    | nil => simp [hcons] at hfraction
    | cons d fraction => rfl
  · simp only
    rw [Number.ofDigits_none (hvalue.symm ▸ hfits), hvalue, hfraction, hplaces]

theorem exponential_cons (d : Char) (ds : List Char) (e : Int) : exponential (d :: ds) e =
    [d] ++ (pointChars ds ++ exponentChars (some (decide (0 ≤ e), Numeral.digits e.natAbs))) := by
  have hsign : (if e < 0 then '-' else '+') = if decide (0 ≤ e) = true then '+' else '-' := by
    by_cases hneg : e < 0
    · rw [if_pos hneg, if_neg (by simpa using hneg)]
    · rw [if_neg hneg, if_pos (by simpa using hneg)]
  cases ds <;> simp only [exponential, hsign] <;> rfl

/-- The literal of a decimal with an exponent. -/
theorem exists_literal_exponential {s : Scientific} (hfits : s.coefficient < 2 ^ (64 : Nat))
    (hlow : -Number.maxExponent ≤ s.exponent)
    (hhigh : s.exponent + (Numeral.digits s.coefficient).length - 1 ≤ Number.maxExponent)
    (hplace : ¬(-5 ≤ s.exponent + (Numeral.digits s.coefficient).length - 1 ∧
      s.exponent + (Numeral.digits s.coefficient).length - 1 ≤ 15)) :
    ∃ l : FloatLiteral, floatDigits s = l.chars ∧ ∀ minus,
      Number.ofDigits minus l.whole l.fraction l.exponent =
        Number.ofParts minus s.coefficient s.exponent := by
  obtain ⟨d, ds, hds, hd⟩ := Numeral.digits_eq_cons s.coefficient
  have hdigits : ∀ c ∈ d :: ds, c.isDigit = true := fun c hc =>
    Numeral.isDigit_of_mem_digits (hds ▸ hc)
  have hvalue : Nat.ofDigitChars 10 ([d] ++ ds) 0 = s.coefficient :=
    (congrArg (Nat.ofDigitChars 10 · 0) hds.symm).trans (Numeral.ofDigitChars_digits _)
  have hexponent : s.exponent + (Numeral.digits s.coefficient).length - 1 =
      s.exponent + ds.length := by
    rw [hds, List.length_cons]
    omega
  rw [hexponent] at hhigh hplace
  refine ⟨⟨[d], ds, some (decide (0 ≤ s.exponent + ds.length),
    Numeral.digits (s.exponent + ds.length).natAbs), List.cons_ne_nil _ _, by simpa using hd,
    ?_, fun c hc => hdigits c (List.mem_cons_of_mem d hc), ?_, .inr rfl⟩, ?_, fun minus => ?_⟩
  · rintro zs hzs
    exact (List.cons.inj hzs).2.symm
  · rintro e he
    cases he
    exact ⟨Nat.toDigits_ne_nil, fun c hc => Numeral.isDigit_of_mem_digits hc⟩
  · simp only [floatDigits, hexponent]
    rw [if_neg hplace, hds, exponential_cons]
    rfl
  · simp only
    rw [Number.ofDigits_some (e := s.exponent + ds.length) (hvalue.symm ▸ hfits) ?_ (by omega)
      hhigh, hvalue, Int.add_sub_cancel]
    rw [Numeral.ofDigitChars_digits]
    by_cases hneg : 0 ≤ s.exponent + ds.length
    · rw [decide_eq_true hneg, if_pos rfl]
      omega
    · rw [decide_eq_false hneg, if_neg (by decide)]
      omega

/-- **The literal of a decimal**, and what a reader takes from it. -/
theorem exists_literal {s : Scientific} (hfits : s.coefficient < 2 ^ (64 : Nat))
    (hlow : -Number.maxExponent ≤ s.exponent)
    (hhigh : s.exponent + (Numeral.digits s.coefficient).length - 1 ≤ Number.maxExponent) :
    ∃ l : FloatLiteral, floatDigits s = l.chars ∧ ∀ minus,
      Number.ofDigits minus l.whole l.fraction l.exponent =
        Number.ofParts minus (written s).coefficient (written s).exponent := by
  have hlength := Numeral.length_digits_pos s.coefficient
  unfold written
  by_cases hwhole : 0 ≤ s.exponent ∧
      s.exponent + (Numeral.digits s.coefficient).length - 1 ≤ 15
  · rw [if_pos hwhole]
    exact exists_literal_whole hwhole.1 hwhole.2
  · rw [if_neg hwhole]
    by_cases hplace : -5 ≤ s.exponent + (Numeral.digits s.coefficient).length - 1 ∧
        s.exponent + (Numeral.digits s.coefficient).length - 1 ≤ 15
    · exact exists_literal_places (by omega) hplace.1 hplace.2 hfits
    · exact exists_literal_exponential hfits hlow hhigh hplace

/-! ## Literals of numbers -/

/-- Decimals of no more digits than are ever written, and of no more than the exponents of 64-bit
numbers. -/
structure Moderate (s : Scientific) : Prop where
  coefficient_le : s.coefficient ≤ 10 ^ (17 : Nat)
  le_exponent : -1100 ≤ s.exponent
  exponent_le : s.exponent ≤ 308

/-- The number that is read from the literal of a number. -/
def reread {w : Width} (x : Binary w) : Option Binary64 :=
  Number.scale (.ofRatio _ x.isNegative (written (x.shortest .even)).coefficient 1)
    (written (x.shortest .even)).exponent

/-- **The literal of a finite number**, and the number that is read from it. -/
theorem ofFloat_of_moderate {w : Width} {x : Binary w} (hx : x.isFinite = true)
    (h : Moderate (x.shortest .even)) : (ofFloat x).Legible ∧
      ∃ literal, ofFloat x = .number literal ∧ Number.ofLiteral literal = (reread x).map .float := by
  obtain ⟨hcoefficient, hlow, hhigh⟩ := h
  have hlength : (Numeral.digits (x.shortest .even).coefficient).length ≤ 18 :=
    (Nat.length_toDigits_le_iff (by decide) (by decide)).mpr
      (Nat.lt_of_le_of_lt hcoefficient (by decide))
  have hmost : Number.maxExponent = 2147483647 := rfl
  obtain ⟨l, hchars, hdigits⟩ := exists_literal (s := x.shortest .even)
    (Nat.lt_of_le_of_lt hcoefficient (by decide)) (by omega) (by omega)
  have hliteral : ofFloat x = .number (String.ofList (l.signed x.isNegative)) := by
    unfold ofFloat
    rw [if_pos hx, hchars]
    rfl
  refine ⟨?_, _, hliteral, (l.ofLiteral_signed x.isNegative).trans (hdigits x.isNegative)⟩
  rw [hliteral]
  refine .number ?_
  rw [String.toList_ofList]
  exact l.literal x.isNegative

end Lakehouse.Json
