import Lakehouse.Native.Decimal
import Lakehouse.Proofs.Decimal.Text

/-!
# Native decimals are exact, as far as decimals reach

A native value denotes a number: an integer or a decimal itself, a floating-point number the
shortest decimal that reads back as it, a text its digits.

* `Binary.number`: the number of the shortest decimal of a floating-point number.
* `Native.denoted`: the number of a native value; `Native.Reachable`: whether decimals can hold it.
* `Native.reading_exact_iff`: a text, and a native value at a declared precision and scale, is
  brought to the number it denotes if and only if decimals can hold that number.
* `Native.reading_rounds`: beyond that, reading rounds without a word.

About `normalize` and `parse`, which are modelled in `Native.Decimal` and `Decimal.Reader`.
-/

namespace Lakehouse

/-! ## Floating-point numbers -/

namespace Binary

variable {w : Width}

/-- The number of the shortest decimal that rounds to a finite number. -/
def number (x : Binary w) : ℚ :=
  (if x.isNegative then -1 else 1) * ((x.shortest .up).num / (x.shortest .up).den : ℚ)

/-- The text of a finite number is its shortest decimal in place. -/
theorem toList_text {x : Binary w} (h : x.isFinite = true) :
    x.text.toList = Decimal.fixedChars x.isNegative (-(x.shortest .up).exponent).toNat
      (x.shortest .up).num := by
  have hword : x.word < w.infinity := of_decide_eq_true h
  have hnan : x.isNaN = false := decide_eq_false (by omega)
  have hinfinite : x.isInfinite = false := by
    unfold isInfinite
    rw [beq_eq_false_iff_ne]
    omega
  unfold text Decimal.fixedChars Scientific.plain
  rw [hnan, hinfinite]
  cases x.isNegative <;> simp

/-- The text of a finite number denotes its shortest decimal. -/
theorem textNumber_text {x : Binary w} (h : x.isFinite = true) :
    Decimal.textNumber x.text.toList = x.number ∧
      Decimal.plainNumber (Decimal.baseOf x.text.toList) = x.number := by
  rw [toList_text h]
  obtain ⟨hbase, htext, hplain⟩ := Decimal.textNumber_fixedChars x.isNegative
    (-(x.shortest .up).exponent).toNat (x.shortest .up).num
  have hden : ((x.shortest .up).den : ℚ) = 10 ^ (-(x.shortest .up).exponent).toNat := by
    unfold Scientific.den
    push_cast
    rfl
  unfold number
  rw [hbase, hden]
  exact ⟨htext, hplain⟩

theorem trim_text {x : Binary w} (h : x.isFinite = true) : Text.trim x.text = x.text := by
  unfold Text.trim
  rw [Text.trimmed_eq_self, String.ofList_toList]
  intro c hc
  rw [toList_text h] at hc
  exact Decimal.isBlank_of_mem_fixedChars hc

end Binary

namespace Native

open Decimal

/-! ## What native values denote -/

/-- The characters of a text that are read: those between the blanks at its ends. -/
def charsOf (text : String) : List Char := (Text.trim text).toList

/-- The number that a native value denotes; none where it stands for no decimal. -/
def denoted : Value → Option ℚ
  | .int n => some n.toInt
  | .long n => some n.toInt
  | .float x => if x.isFinite then some x.number else none
  | .double x => if x.isFinite then some x.number else none
  | .string s => some (textNumber (charsOf s))
  | .decimal d => some d.number
  | _ => none

/-- Decimals can hold the number of a text, and the base in front of its exponent. -/
def ReachableText (text : String) : Prop :=
  Holds (plainNumber (baseOf (charsOf text))) ∧ Holds (textNumber (charsOf text))

/-- Decimals can hold the number of a native value. -/
def Reachable : Value → Prop
  | .float x => Holds x.number
  | .double x => Holds x.number
  | .string s => ReachableText s
  | _ => True

theorem number_ofInt32 (n : Int32) : (Decimal.ofInt32 n).number = n.toInt := by
  simp [number, Decimal.ofInt32]

theorem number_ofInt64 (n : Int64) : (Decimal.ofInt64 n).number = n.toInt := by
  simp [number, Decimal.ofInt64]

/-! ## Reading -/

/-- A text is read as its number if and only if decimals can hold it. -/
theorem readDecimalText_exact_iff {text : String} {d : Decimal}
    (h : readDecimalText text = .ok d) :
    d.number = textNumber (charsOf text) ↔ ReachableText text := by
  unfold readDecimalText at h
  split at h
  · rename_i e hread
    cases h
    exact readChars_exact_iff hread
  · cases h

/-- A finite floating-point number is read as its shortest decimal if and only if decimals can hold
it. -/
theorem readDecimalText_text_exact_iff {w : Width} {x : Binary w} {d : Decimal}
    (hfinite : x.isFinite = true) (h : readDecimalText x.text = .ok d) :
    d.number = x.number ↔ Holds x.number := by
  obtain ⟨htext, hplain⟩ := Binary.textNumber_text hfinite
  have hiff := readDecimalText_exact_iff h
  unfold ReachableText charsOf at hiff
  rwa [Binary.trim_text hfinite, htext, hplain, and_self_iff] at hiff

/-- **A native value is read as the number it denotes if and only if decimals can hold it.** -/
theorem toDecimal_exact_iff {v : Value} {d : Decimal} (h : toDecimal v = .ok d) :
    ∃ q, denoted v = some q ∧ (d.number = q ↔ Reachable v) := by
  unfold toDecimal at h
  split at h
  · rename_i n
    cases h
    exact ⟨_, rfl, iff_of_true (number_ofInt32 n) trivial⟩
  · rename_i n
    cases h
    exact ⟨_, rfl, iff_of_true (number_ofInt64 n) trivial⟩
  · rename_i x
    split at h
    · rename_i hfinite
      exact ⟨x.number, if_pos hfinite, readDecimalText_text_exact_iff hfinite h⟩
    · cases h
  · rename_i x
    split at h
    · rename_i hfinite
      exact ⟨x.number, if_pos hfinite, readDecimalText_text_exact_iff hfinite h⟩
    · cases h
  · exact ⟨_, rfl, readDecimalText_exact_iff h⟩
  · cases h
    exact ⟨_, rfl, iff_of_true rfl trivial⟩
  · cases h

/-- At a declared precision and scale a native value is the number it denotes if and only if
decimals can hold it. -/
theorem readDecimal_exact_iff {v : Value} {precision scale : Nat} {d : Decimal}
    (h : readDecimal v precision scale = .ok d) :
    ∃ q, denoted v = some q ∧ (d.number = q ↔ Reachable v) := by
  obtain ⟨e, he, hrescale⟩ := bind_eq_ok.mp h
  obtain ⟨hnumber, -⟩ := fitTo_spec (rescale_eq_ok.mp hrescale)
  rw [hnumber]
  exact toDecimal_exact_iff he

/-- **Reading a decimal is exact if and only if decimals can hold the number**: for every text, and
for every native value at every precision and scale. -/
theorem reading_exact_iff (text : String) (v : Value) (precision scale : Nat) :
    (∀ d, readDecimalText text = .ok d →
      (d.number = textNumber (charsOf text) ↔ ReachableText text)) ∧
    (∀ d, readDecimal v precision scale = .ok d →
      ∃ q, denoted v = some q ∧ (d.number = q ↔ Reachable v)) :=
  ⟨fun _ => readDecimalText_exact_iff, fun _ => readDecimal_exact_iff⟩

/-- The number of a text without sign and exponent, by its digits. -/
theorem textNumber_eq (cs : List Char) (value places : Nat)
    (hmarks : cs.any isExponentMark = false) (hsign : cs.head? ≠ some '-')
    (hvalue : Nat.ofDigitChars 10 (digitsOf cs) 0 = value) (hplaces : placesOf cs = places) :
    plainNumber (baseOf cs) = value / 10 ^ places ∧ textNumber cs = value / 10 ^ places := by
  obtain ⟨hbase, htext⟩ := textNumber_of_plain fun c hc => by
    simpa using List.any_eq_false.mp hmarks c hc
  have hplain : plainNumber cs = value / 10 ^ places := by
    unfold plainNumber signOf
    rw [if_neg hsign, hvalue, hplaces, one_mul]
  rw [hbase]
  exact ⟨hplain, htext.trans hplain⟩

/-- One and a half is within reach and read exactly, behind blanks and at a larger scale. -/
theorem reading_exact_iff_one_and_a_half :
    let d : Decimal := ⟨150, 2, by decide, by decide⟩
    (readDecimalText "1.50" = .ok d ∧ d.number = textNumber (charsOf "1.50")) ∧
      (readDecimal (.string " 1.5 ") 38 2 = .ok d ∧
        ∃ q, denoted (.string " 1.5 ") = some q ∧ d.number = q) := by
  intro d
  have htext : readDecimalText "1.50" = .ok d := by decide +kernel
  have hvalue : readDecimal (.string " 1.5 ") 38 2 = .ok d := by decide +kernel
  have hreach : ReachableText "1.50" := by
    obtain ⟨hbase, hnumber⟩ := textNumber_eq (charsOf "1.50") 150 2
      (by decide +kernel) (by decide +kernel) (by decide +kernel) (by decide +kernel)
    exact ⟨⟨d, hbase ▸ by simp [number, d]⟩, ⟨d, hnumber ▸ by simp [number, d]⟩⟩
  have hreach' : Reachable (.string " 1.5 ") := by
    obtain ⟨hbase, hnumber⟩ := textNumber_eq (charsOf " 1.5 ") 15 1
      (by decide +kernel) (by decide +kernel) (by decide +kernel) (by decide +kernel)
    refine ⟨⟨d, hbase ▸ ?_⟩, ⟨d, hnumber ▸ ?_⟩⟩ <;> norm_num [number, d]
  obtain ⟨hread, hreadValue⟩ := reading_exact_iff "1.50" (.string " 1.5 ") 38 2
  obtain ⟨q, hq, hiff⟩ := hreadValue d hvalue
  exact ⟨⟨htext, (hread d htext).mpr hreach⟩, hvalue, q, hq, hiff.mpr hreach'⟩

/-- **Beyond the reach of decimals reading rounds without a word**: a digit in the 29th place is
dropped, from the decimal of a text and from a native value at a declared scale. -/
theorem reading_rounds :
    let text := "1.00000000000000000000000000001"
    (∃ d, readDecimalText text = .ok d ∧ d.number ≠ textNumber (charsOf text)) ∧
      ∃ d q, readDecimal (.string text) 38 2 = .ok d ∧ denoted (.string text) = some q ∧
        d.number ≠ q := by
  intro text
  obtain ⟨-, hnumber⟩ := textNumber_eq (charsOf text) (10 ^ 29 + 1) 29
    (by decide +kernel) (by decide +kernel) (by decide +kernel) (by decide +kernel)
  refine ⟨⟨⟨10 ^ 28, 28, by decide, by decide⟩, by decide +kernel, ?_⟩,
    ⟨100, 2, by decide, by decide⟩, _, by decide +kernel, rfl, ?_⟩
  · rw [hnumber]
    norm_num [number]
  · rw [hnumber]
    norm_num [number]

end Native

end Lakehouse
