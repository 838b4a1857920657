import Lakehouse.Format.PartitionValue
import Lakehouse.Proofs.Calendar.Instant
import Lakehouse.Proofs.Canonical
import Lakehouse.Proofs.Decimal.Text

/-!
# Typed values survive their text

Under the value transform the values of integer, boolean, decimal, date and instant columns are
written in Hudi with letters, digits, signs and points, and read back as they were.

* `TableFormat.readIdentity_writeIdentity_of_not_instant`: what is no instant is read as it was
  written, in every format and also if it is a string.
* `TableFormat.readIdentity_writeIdentity`: the text of a typed value is read as the value.
* `TableFormat.isTextual_of_mem_writeIdentity`: which characters the text has.
-/

namespace Lakehouse

/-- The types whose values are written with letters, digits, signs and points. -/
def DataType.isTyped : DataType → Bool
  | int | long | boolean | decimal | date | timestamp | timestampNtz => true
  | _ => false

/-- The types whose values are strings, and are written as they are. -/
def DataType.isWord : DataType → Bool
  | string | enumeration | uuid => true
  | _ => false

/-- A character of the text of a typed value. -/
def isTextual (c : Char) : Bool := DatePattern.isPlain c || c == '.'

theorem isTextual_of_isPlain {c : Char} (h : DatePattern.isPlain c = true) :
    isTextual c = true := by
  simp [isTextual, h]

theorem isTextual_of_mem_signed {n : Int} {c : Char} (h : c ∈ Numeral.signed n) :
    isTextual c = true := by
  rcases Numeral.mem_signed h with rfl | hdigit
  · rfl
  · exact isTextual_of_isPlain (DatePattern.isPlain_of_isDigit hdigit)

/-- An integer is written without blanks. -/
theorem trim_ofInt (n : Int) : Text.trim (Numeral.ofInt n) = Numeral.ofInt n := by
  have hblanks : ∀ c ∈ Numeral.signed n, Text.isBlank c = false := fun c hc => by
    rcases Numeral.mem_signed hc with rfl | hdigit
    · rfl
    · exact Text.isBlank_of_isDigit hdigit
  unfold Text.trim Numeral.ofInt
  rw [String.toList_ofList, Text.trimmed_eq_self hblanks]

theorem ofInt_ne_empty (n : Int) : Numeral.ofInt n ≠ "" := by
  obtain ⟨c, cs, hcs, -⟩ := Numeral.signed_eq_cons n
  unfold Numeral.ofInt
  rw [hcs]
  exact fun h => by simpa using congrArg String.toList h

/-- **A 64-bit integer is read as it was written.** -/
theorem Native.readLong_ofInt (n : Int64) :
    Native.readLong (.string (Numeral.ofInt n.toInt)) = .ok n := by
  simp only [Native.readLong, trim_ofInt, Numeral.readInt64_ofInt]

/-- **A 32-bit integer is read as it was written.** -/
theorem Native.readInt_ofInt (n : Int32) :
    Native.readInt (.string (Numeral.ofInt n.toInt)) = .ok n := by
  simp only [Native.readInt, trim_ofInt, Numeral.readInt32_ofInt]

theorem Native.readBoolean_text (b : Bool) :
    Native.readBoolean (.string (Value.boolean b).text) = .ok b := by
  cases b <;> decide +kernel

theorem Decimal.trim_text (d : Decimal) : Text.trim d.text = d.text := by
  unfold Text.trim Decimal.text
  rw [String.toList_ofList, Text.trimmed_eq_self fun c hc =>
    Decimal.isBlank_of_mem_fixedChars (Decimal.chars_eq d ▸ hc)]

/-- **A decimal is read as it was written**, with its scale. -/
theorem Native.readDecimalText_text (d : Decimal) : Native.readDecimalText d.text = .ok d := by
  unfold Native.readDecimalText
  rw [Decimal.trim_text, Decimal.text, String.toList_ofList, Decimal.readChars_chars]

theorem Decimal.text_ne_empty (d : Decimal) : d.text ≠ "" := by
  intro hempty
  have hread := Decimal.readChars_chars d
  have hchars := congrArg String.toList hempty
  rw [Decimal.text, String.toList_ofList] at hchars
  rw [hchars] at hread
  cases hread

theorem Decimal.isTextual_of_mem_text {d : Decimal} {c : Char} (h : c ∈ d.text.toList) :
    isTextual c = true := by
  rw [Decimal.text, String.toList_ofList, Decimal.chars_eq] at h
  rcases Decimal.mem_fixedChars h with rfl | rfl | hdigit
  · rfl
  · rfl
  · exact isTextual_of_isPlain (DatePattern.isPlain_of_isDigit hdigit)

namespace TableFormat

variable {type : DataType} {v : Value} {text : String}

/-- Without a pattern Hudi writes the number of an instant, and reads it. -/
theorem instantPattern_empty : hudi.instantPattern "" = .ok none := rfl

theorem writeInstantText_empty (instant : Int64) :
    hudi.writeInstantText instant "" = .ok (Numeral.ofInt instant.toInt) := rfl

theorem readInstantText_empty (instant : Int64) :
    hudi.readInstantText (Numeral.ofInt instant.toInt) "" = .ok instant := by
  unfold readInstantText
  rw [instantPattern_empty, ok_bind]
  simp only [Native.readLong_ofInt]
  rfl

/-- **What is no instant is read as it was written**, in every format: a string or a typed value. -/
theorem readIdentity_writeIdentity_of_not_instant {format : TableFormat} {pattern : String}
    (htype : type.isTyped = true ∨ type.isWord = true) (hinstant : type.isTimestamp = false)
    (hv : Canonical type v) (hpresent : v.isNull = false)
    (h : format.writeIdentity v type pattern = .ok text) :
    format.readIdentity text type pattern = .ok v := by
  cases hv with
  | int n =>
    cases h
    simp only [readIdentity, Identity.parse, Identity.isReadable, Identity.read, Identity.text,
      Value.text, Native.readInt_ofInt]
    rfl
  | long n =>
    cases h
    simp only [readIdentity, Identity.parse, Identity.isReadable, Identity.read, Identity.text,
      Value.text, Native.readLong_ofInt]
    rfl
  | boolean b =>
    cases h
    simp only [readIdentity, Identity.parse, Identity.isReadable, Identity.read, Identity.text,
      Native.readBoolean_text]
    rfl
  | decimal d =>
    cases h
    simp only [readIdentity, Identity.parse, Identity.isReadable, Identity.read, Identity.text,
      Value.text, Native.readDecimalText_text]
    rfl
  | date day =>
    have hread := EpochDay.read_iso (mapError_eq_ok.mp h)
    simp only [readIdentity, hread]
    rfl
  | string s | symbol s | uuidText s =>
    cases h
    rfl
  | uuid bs => cases h
  | timestamp | timestampNtz => cases hinstant
  | null => cases hpresent
  | float | double | bytes | fixed => rcases htype with htype | htype <;> cases htype

/-- **The text of a typed value is read as the value.** -/
theorem readIdentity_writeIdentity (htype : type.isTyped = true) (hv : Canonical type v)
    (hpresent : v.isNull = false) (h : hudi.writeIdentity v type "" = .ok text) :
    hudi.readIdentity text type "" = .ok v := by
  cases hinstant : type.isTimestamp with
  | false => exact readIdentity_writeIdentity_of_not_instant (.inl htype) hinstant hv hpresent h
  | true =>
    cases hv with
    | timestamp instant | timestampNtz instant =>
      have htext := h.symm.trans (writeInstantText_empty instant)
      cases htext
      simp only [readIdentity, readInstantText_empty]
      rfl
    | null => cases hpresent
    | _ => cases hinstant

/-- The text of a typed value is not empty, and it has letters, digits, signs and points only. -/
theorem isTextual_of_mem_writeIdentity (htype : type.isTyped = true) (hv : Canonical type v)
    (hpresent : v.isNull = false) (h : hudi.writeIdentity v type "" = .ok text) :
    text ≠ "" ∧ ∀ c ∈ text.toList, isTextual c = true := by
  cases hv with
  | int n | long n =>
    cases h
    refine ⟨ofInt_ne_empty n.toInt, fun c hc => isTextual_of_mem_signed (n := n.toInt) ?_⟩
    change c ∈ (String.ofList (Numeral.signed _)).toList at hc
    rwa [String.toList_ofList] at hc
  | boolean b =>
    cases h
    cases b <;> exact ⟨by decide, List.all_eq_true.mp (by decide)⟩
  | decimal d =>
    cases h
    exact ⟨Decimal.text_ne_empty d, fun c hc => Decimal.isTextual_of_mem_text hc⟩
  | date day =>
    obtain ⟨d, -, -, -, rfl⟩ := EpochDay.iso_eq_ok.mp (mapError_eq_ok.mp h)
    refine ⟨fun hempty => ?_, fun c hc => ?_⟩
    · have hchars := congrArg String.toList hempty
      rw [String.toList_ofList] at hchars
      simp [Date.iso] at hchars
    · rw [String.toList_ofList] at hc
      exact isTextual_of_isPlain (EpochDay.isPlain_of_mem_iso hc)
  | timestamp instant | timestampNtz instant =>
    have htext := h.symm.trans (writeInstantText_empty instant)
    cases htext
    refine ⟨ofInt_ne_empty instant.toInt, fun c hc => ?_⟩
    rw [Numeral.ofInt, String.toList_ofList] at hc
    exact isTextual_of_mem_signed hc
  | null => cases hpresent
  | _ => cases htype

end TableFormat

end Lakehouse
