import Lakehouse.Proofs.Partition.Identity

/-!
# Integers as native values

An integer is stored as a number of 32 or of 64 bits, or as text. Read at either width it is the
same number, and only what does not fit into 32 bits is refused at the smaller width and read at the
larger one.

* `Native.readLong_string_iff`: which texts are read, and as which numbers.
* `Native.readInt_iff_readLong`: the two widths agree.
* `Identity.render_eq_ok_iff_of_integer`: which columns write an integer.
* `Identity.parse_text_of_integer`: what they have written is read as its number.
* `Native.integers_are_read_exactly`: all of it.

About `int_from_native`, `long_from_native`, `render_scalar` and `parse_scalar`, which are modelled
in `Native.Coercion` and `Partition.Identity`.
-/

namespace Lakehouse

/-- The number of an integer value. -/
def Value.integer? : Value → Option Int
  | .int n => some n.toInt
  | .long n => some n.toInt
  | _ => none

namespace Native

open Numeral

variable {s : String} {n : Int}

/-- A text is read as a 32-bit integer when it is a numeral of it between blanks. -/
theorem readInt_string_eq_ok {m : Int32} :
    readInt (.string s) = .ok m ↔ Denotes (Text.trimmed s.toList) m.toInt := by
  have hnumeral : readInt32 (Text.trim s) = .ok m ↔ Denotes (Text.trimmed s.toList) m.toInt := by
    rw [readInt32_eq_ok_iff, Text.trim, String.toList_ofList]
  rw [← hnumeral, readInt]
  cases readInt32 (Text.trim s) <;> simp

/-- A text is read as a 64-bit integer when it is a numeral of it between blanks. -/
theorem readLong_string_eq_ok {m : Int64} :
    readLong (.string s) = .ok m ↔ Denotes (Text.trimmed s.toList) m.toInt := by
  have hnumeral : readInt64 (Text.trim s) = .ok m ↔ Denotes (Text.trimmed s.toList) m.toInt := by
    rw [readInt64_eq_ok_iff, Text.trim, String.toList_ofList]
  rw [← hnumeral, readLong]
  cases readInt64 (Text.trim s) <;> simp

/-- There is a 32-bit integer of that number exactly if it lies within the bounds. -/
theorem exists_int32_iff {P : Int → Prop} :
    (∃ m : Int32, P m.toInt ∧ m.toInt = n) ↔ P n ∧ -2 ^ 31 ≤ n ∧ n < 2 ^ 31 := by
  constructor
  · rintro ⟨m, hm, rfl⟩
    exact ⟨hm, m.le_toInt, m.toInt_lt⟩
  · rintro ⟨hn, hlow, hhigh⟩
    have hvalue : (Int32.ofInt n).toInt = n := Int32.toInt_ofInt_of_le hlow hhigh
    exact ⟨Int32.ofInt n, hvalue.symm ▸ hn, hvalue⟩

/-- There is a 64-bit integer of that number exactly if it lies within the bounds. -/
theorem exists_int64_iff {P : Int → Prop} :
    (∃ m : Int64, P m.toInt ∧ m.toInt = n) ↔ P n ∧ -2 ^ 63 ≤ n ∧ n < 2 ^ 63 := by
  constructor
  · rintro ⟨m, hm, rfl⟩
    exact ⟨hm, m.le_toInt, m.toInt_lt⟩
  · rintro ⟨hn, hlow, hhigh⟩
    have hvalue : (Int64.ofInt n).toInt = n := Int64.toInt_ofInt_of_le hlow hhigh
    exact ⟨Int64.ofInt n, hvalue.symm ▸ hn, hvalue⟩

/-- **Which texts are read as 64-bit integers**, and as which numbers. -/
theorem readLong_string_iff : (∃ m, readLong (.string s) = .ok m ∧ m.toInt = n) ↔
    Denotes (Text.trimmed s.toList) n ∧ -2 ^ 63 ≤ n ∧ n < 2 ^ 63 := by
  simp only [readLong_string_eq_ok]
  exact exists_int64_iff

/-- **Which texts are read as 32-bit integers**, and as which numbers. -/
theorem readInt_string_iff : (∃ m, readInt (.string s) = .ok m ∧ m.toInt = n) ↔
    Denotes (Text.trimmed s.toList) n ∧ -2 ^ 31 ≤ n ∧ n < 2 ^ 31 := by
  simp only [readInt_string_eq_ok]
  exact exists_int32_iff

/-- A 64-bit integer is read as the 32-bit integer of its number, if there is one. -/
theorem readInt_long_eq_ok {k : Int64} {m : Int32} :
    readInt (.long k) = .ok m ↔ m.toInt = k.toInt := by
  have hfits : int32? k.toInt = some m ↔ m.toInt = k.toInt :=
    ⟨toInt_of_int32?, fun h => h ▸ int32?_toInt m⟩
  rw [← hfits, readInt]
  cases int32? k.toInt <;> simp

/-- **Both widths read the same number**, as long as it fits. -/
theorem readInt_iff_readLong {v : Value} : (∃ m, readInt v = .ok m ∧ m.toInt = n) ↔
    (∃ m, readLong v = .ok m ∧ m.toInt = n) ∧ -2 ^ 31 ≤ n ∧ n < 2 ^ 31 := by
  cases v with
  | int k =>
    have hlow := k.le_toInt
    have hhigh := k.toInt_lt
    have hwide : (Int64.ofInt k.toInt).toInt = k.toInt :=
      Int64.toInt_ofInt_of_le (by omega) (by omega)
    simp only [readInt, readLong, Except.ok.injEq, exists_eq_left', hwide]
    constructor
    · rintro rfl
      exact ⟨rfl, hlow, hhigh⟩
    · exact And.left
  | long k =>
    simp only [readInt_long_eq_ok, readLong, Except.ok.injEq, exists_eq_left']
    rw [exists_int32_iff (P := (· = k.toInt)), eq_comm (a := n)]
  | string text =>
    rw [readInt_string_iff, readLong_string_iff]
    constructor
    · rintro ⟨h, hlow, hhigh⟩
      exact ⟨⟨h, by omega, by omega⟩, hlow, hhigh⟩
    · rintro ⟨⟨h, -⟩, hbounds⟩
      exact ⟨h, hbounds⟩
  | _ => simp [readInt, readLong]

end Native

/-! ## Written and read by a column -/

namespace Identity

variable {v : Value} {n : Int} {type : DataType}

/-- **Which columns write an integer**: those of 64 bits, and for a 32-bit one those of 32 bits. -/
theorem render_eq_ok_iff_of_integer (hv : v.integer? = some n) :
    (∃ text, render v type = .ok text) ↔ type = .long ∨ type = .int ∧ v.kind = "int" := by
  cases v with
  | int k => cases type <;> simp [render, accepts?, Value.kind]
  | long k => cases type <;> simp [render, accepts?, Value.kind]
  | _ => cases hv

theorem parse_int_ofInt (m : Int32) : parse (Numeral.ofInt m.toInt) .int = .ok (.int m) := by
  simp only [parse, isReadable, read, Native.readInt_ofInt]
  rfl

theorem parse_long_ofInt (m : Int64) : parse (Numeral.ofInt m.toInt) .long = .ok (.long m) := by
  simp only [parse, isReadable, read, Native.readLong_ofInt]
  rfl

/-- **What a column has written of an integer is read as its number**, in the column's own kind. -/
theorem parse_text_of_integer {text : String} (hv : v.integer? = some n)
    (h : render v type = .ok text) :
    ∃ u, parse text type = .ok u ∧ Canonical type u ∧ u.integer? = some n := by
  have hcolumn := (render_eq_ok_iff_of_integer hv).mp ⟨text, h⟩
  cases v with
  | int k =>
    rcases hcolumn with rfl | ⟨rfl, -⟩
    · have hlow := k.le_toInt
      have hhigh := k.toInt_lt
      have hwide : (Int64.ofInt k.toInt).toInt = k.toInt :=
        Int64.toInt_ofInt_of_le (by omega) (by omega)
      have htext : Numeral.ofInt (Int64.ofInt k.toInt).toInt = text :=
        hwide.symm ▸ Except.ok.inj h
      exact ⟨_, htext ▸ parse_long_ofInt _, .long _, (congrArg some hwide).trans hv⟩
    · exact ⟨_, Except.ok.inj h ▸ parse_int_ofInt k, .int k, hv⟩
  | long k =>
    rcases hcolumn with rfl | ⟨-, hkind⟩
    · exact ⟨_, Except.ok.inj h ▸ parse_long_ofInt k, .long k, hv⟩
    · simp [Value.kind] at hkind
  | _ => cases hv

end Identity

/-- **Integers are read exactly**: at 32 bits the number that is read at 64 bits, if it fits; from
text the number of a numeral between blanks, whatever zeros stand in front of it, if there is a
64-bit integer of that number; and from the text that a column has written of an integer its number.
The columns that write one are those of 64 bits, and those of 32 bits for a 32-bit integer. -/
theorem Native.integers_are_read_exactly :
    (∀ (v : Value) (n : Int), (∃ m, readInt v = .ok m ∧ m.toInt = n) ↔
      (∃ m, readLong v = .ok m ∧ m.toInt = n) ∧ -2 ^ 31 ≤ n ∧ n < 2 ^ 31) ∧
    (∀ (s : String) (n : Int), (∃ m, readLong (.string s) = .ok m ∧ m.toInt = n) ↔
      Numeral.Denotes (Text.trimmed s.toList) n ∧ -2 ^ 63 ≤ n ∧ n < 2 ^ 63) ∧
    ∀ (v : Value) (n : Int) (type : DataType), v.integer? = some n →
      ((∃ text, Identity.render v type = .ok text) ↔
        type = .long ∨ type = .int ∧ v.kind = "int") ∧
      ∀ text, Identity.render v type = .ok text →
        ∃ u, Identity.parse text type = .ok u ∧ Canonical type u ∧ u.integer? = some n :=
  ⟨fun _ _ => readInt_iff_readLong, fun _ _ => readLong_string_iff, fun _ _ _ hv =>
    ⟨Identity.render_eq_ok_iff_of_integer hv, fun _ h => Identity.parse_text_of_integer hv h⟩⟩

/-- The least 64-bit integer is written with a sign and nineteen digits, and is read as itself. -/
theorem Native.integers_are_read_exactly_least :
    (Value.long (-9223372036854775808)).integer? = some (-9223372036854775808) ∧
    Identity.render (.long (-9223372036854775808)) .long = .ok "-9223372036854775808" ∧
    ∃ u, Identity.parse "-9223372036854775808" .long = .ok u ∧ Canonical .long u ∧
      u.integer? = some (-9223372036854775808) :=
  have hnumber : (Value.long (-9223372036854775808)).integer? = some (-9223372036854775808) := rfl
  have htext : Identity.render (.long (-9223372036854775808)) .long =
      .ok "-9223372036854775808" := by decide +kernel
  ⟨hnumber, htext,
    (integers_are_read_exactly.2.2 (.long (-9223372036854775808)) _ .long hnumber).2 _ htext⟩

end Lakehouse
