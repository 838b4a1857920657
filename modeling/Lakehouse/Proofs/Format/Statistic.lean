import Lakehouse.Format.Statistic
import Lakehouse.Proofs.Calendar.Instant
import Lakehouse.Proofs.Canonical
import Lakehouse.Proofs.Decimal.Exact
import Lakehouse.Proofs.Except
import Lakehouse.Proofs.Number.Binary

/-!
# Statistics survive every format

A bound of a column that a format stores is read back from it.

* `TableFormat.Restores`: what a bound comes back as. Only Delta loses something: what an instant
  has below a second.
* `TableFormat.statFromNative_statToNative`: whatever a format stores comes back so.

About `stat_to_native` and `stat_from_native`, which are modelled in `Format.Statistic`.
-/

namespace Lakehouse

/-! ## Numbers that are not finite -/

namespace Native

/-- The word for a number that is not finite is read as it: an infinity as itself, anything else
as no number. -/
theorem readFloatText_sentinel {w : Width} (x : Binary w) :
    readFloatText (sentinel x) =
      .ok (if x.isNaN then Binary.nan _ else Binary.infinity _ x.isNegative) := by
  unfold sentinel
  by_cases hnan : x.isNaN = true
  · rw [if_pos hnan, if_pos hnan]
    rfl
  · rw [if_neg hnan, if_neg hnan]
    cases x.isNegative <;> rfl

/-- A number that is not finite is brought to 64 bits from its word. -/
theorem toDouble_sentinel {w : Width} {x : Binary w} (hfinite : x.isFinite = false)
    (type : DataType) :
    (x.isNaN = true ∧ toDouble (.string (sentinel x)) type = .ok (Binary.nan _)) ∨
      (x = Binary.infinity w x.isNegative ∧
        toDouble (.string (sentinel x)) type = .ok (Binary.infinity _ x.isNegative)) := by
  simp only [toDouble, readFloatText_sentinel]
  by_cases hnan : x.isNaN = true
  · exact .inl ⟨hnan, by rw [if_pos hnan]⟩
  · exact .inr ⟨Binary.eq_infinity hfinite (Bool.eq_false_iff.mpr hnan), by rw [if_neg hnan]⟩

end Native

/-! ## Instants -/

/-- How many units of a precision make a second. -/
def Precision.perSecond : Precision → Int
  | millis => 1000
  | micros => 1000000

namespace TableFormat

/-- What is kept of an instant: in Delta, whole seconds. -/
def keptInstant (f : TableFormat) (p : Precision) (instant : Int) : Int :=
  match f with
  | delta => instant / p.perSecond * p.perSecond
  | hudi | iceberg => instant

theorem int64?_of_bounds {n : Int} (hlow : -2 ^ 63 ≤ n) (hhigh : n < 2 ^ 63) :
    ∃ w, int64? n = some w ∧ w.toInt = n := by
  have hw : int64? n = some (Int64.ofInt n) := if_pos ⟨hlow, hhigh⟩
  exact ⟨_, hw, toInt_of_int64? hw⟩

/-- Microseconds are brought to milliseconds by rounding down. -/
theorem toInt_toMillis_micros (instant : Int64) :
    (Precision.micros.toMillis instant).toInt = instant.toInt / 1000 := by
  have hlow := instant.le_toInt
  have hhigh := instant.toInt_lt
  exact Int64.toInt_ofInt_of_le (by omega) (by omega)

/-- Whole seconds that were written by Delta come back in the declared precision. -/
theorem readInstant_writeInstant_delta {p : Precision} {type : DataType} {instant : Int64}
    {native : Value} (h : delta.writeInstant p instant = .ok native) :
    ∃ back, delta.readInstant p type native = .ok (.long back) ∧
      back.toInt = instant.toInt / p.perSecond * p.perSecond := by
  obtain ⟨text, htext, hnative⟩ := bind_eq_ok.mp h
  cases hnative
  obtain ⟨t, ht, hmillis, hread⟩ := DatePattern.readMillis_writeMillis_seconds htext
  have hvalue : (Int64.ofInt t.millis).toInt = t.millis := ht.toInt_ofInt_millis
  obtain ⟨hlow, hhigh⟩ := ht.millis_bounds
  cases p with
  | millis =>
    refine ⟨Int64.ofInt t.millis, ?_, hvalue.trans hmillis⟩
    simp only [readInstant, hread]
    rfl
  | micros =>
    rw [toInt_toMillis_micros] at hmillis
    obtain ⟨back, hback, hbackValue⟩ :=
      int64?_of_bounds (n := t.millis * 1000) (by omega) (by omega)
    refine ⟨back, ?_, ?_⟩
    · simp only [readInstant, hread, ok_bind, Precision.ofMillis, hvalue, hback]
      rfl
    · rw [hbackValue, hmillis]
      simp only [Precision.perSecond]
      omega

/-- **An instant comes back from every format**, from Delta without what is below a second. -/
theorem readInstant_writeInstant {f : TableFormat} {p : Precision} {type : DataType}
    {instant : Int64} {native : Value} (h : f.writeInstant p instant = .ok native) :
    ∃ back, f.readInstant p type native = .ok (.long back) ∧
      back.toInt = f.keptInstant p instant.toInt := by
  cases f with
  | hudi =>
    cases h
    exact ⟨instant, rfl, rfl⟩
  | delta => exact readInstant_writeInstant_delta h
  | iceberg =>
    cases p with
    | micros =>
      cases h
      exact ⟨instant, rfl, rfl⟩
    | millis =>
      obtain ⟨micros, hmicros, hnative⟩ := bind_eq_ok.mp h
      cases hnative
      refine ⟨Precision.micros.toMillis micros, rfl, ?_⟩
      simp only [Precision.ofMillis] at hmicros
      split at hmicros
      · rename_i n hn
        cases hmicros
        rw [toInt_toMillis_micros, toInt_of_int64? hn]
        simp only [keptInstant]
        omega
      · cases hmicros

section InstantColumn

variable {f : TableFormat} {field : Schema}

/-- A bound of an instant column is written as an instant of the column's precision. -/
theorem statToNative_eq_writeInstant (htype : field.type.isTimestamp = true) (instant : Int64) :
    f.statToNative (.long instant) field = f.writeInstant field.precision instant := by
  unfold statToNative
  cases hfield : field.type <;> simp_all [DataType.isTimestamp, Value.isNull]

/-- A bound of an instant column that is present is read as an instant. -/
theorem statFromNative_eq_readInstant (htype : field.type.isTimestamp = true) {native : Value}
    (hpresent : native.isNull = false) :
    f.statFromNative native field = f.readInstant field.precision field.type native := by
  unfold statFromNative
  rw [hpresent]
  cases hfield : field.type <;> simp_all [DataType.isTimestamp]

end InstantColumn

/-! ## Days, decimals and numbers -/

/-- A day comes back from every format. -/
theorem readDay_writeDay {f : TableFormat} {day : Int32} {native : Value}
    (h : f.writeDay day = .ok native) : f.readDay native = .ok (.int day) := by
  cases f with
  | hudi | iceberg =>
    cases h
    rfl
  | delta =>
    obtain ⟨text, htext, hnative⟩ := bind_eq_ok.mp h
    cases hnative
    simp only [readDay, EpochDay.read_iso htext]
    rfl

/-- A decimal that was read at the declared scale is read again as it is. -/
theorem readDecimal_readDecimal {field : Schema} {d : Decimal} {native : Value}
    (h : field.readDecimal (.decimal d) = .ok native) :
    ∃ e, native = .decimal e ∧ e.number = d.number ∧
      field.decimalScale?.map (·.toNat) = some e.scale ∧
      field.readDecimal (.decimal e) = .ok (.decimal e) := by
  obtain ⟨⟨precision, scale⟩, hspec, h⟩ := bind_eq_ok.mp h
  obtain ⟨e, he, hnative⟩ := bind_eq_ok.mp h
  cases hnative
  obtain ⟨hnumber, hscale, hprecision, -⟩ := Decimal.fitTo_spec (Decimal.rescale_eq_ok.mp he)
  refine ⟨e, rfl, hnumber, ?_, ?_⟩
  · rw [hscale]
    unfold Schema.decimalSpec at hspec
    split at hspec
    · rename_i p s _ hs
      cases hspec
      rw [hs]
      rfl
    · cases hspec
  · have hself : e.rescale precision scale = .ok e := by
      rw [Decimal.rescale_eq_ok, ← hscale]
      exact Decimal.fitTo_self hprecision
    unfold Schema.readDecimal
    rw [hspec, ok_bind]
    simp only [Native.readDecimal, Native.toDecimal, ok_bind, hself]
    rfl

/-- A 32-bit number comes back from every format; one that is no number as no number. -/
theorem readFloating_writePlain_float (f : TableFormat) (x : Binary32) :
    ∃ y, Native.readFloating (f.writePlain .float (.float x)) .float = .ok (.float y) ∧
      (y = x ∨ (x.isNaN = true ∧ y.isNaN = true)) := by
  by_cases hplain : f = .delta ∧ x.isFinite = false
  · obtain ⟨rfl, hfinite⟩ := hplain
    have hinfinity : ∀ negative, (Binary.infinity .double negative).convert .single =
        Binary.infinity .single negative := by decide
    have hwritten : delta.writePlain .float (.float x) = .string (Native.sentinel x) := by
      simp [writePlain, hfinite]
    rw [hwritten]
    unfold Native.readFloating
    rcases Native.toDouble_sentinel hfinite .float with ⟨hnan, hread⟩ | ⟨hx, hread⟩
    · rw [hread]
      exact ⟨_, rfl, .inr ⟨hnan, by decide⟩⟩
    · rw [hread]
      exact ⟨_, rfl, .inl ((hinfinity _).trans hx.symm)⟩
  · have hwritten : f.writePlain .float (.float x) = .float x := by
      cases f <;> simp_all [writePlain]
    rw [hwritten]
    exact ⟨x, rfl, .inl rfl⟩

/-- A 64-bit number comes back from every format; one that is no number as no number. -/
theorem readFloating_writePlain_double (f : TableFormat) (x : Binary64) :
    ∃ y, Native.readFloating (f.writePlain .double (.double x)) .double = .ok (.double y) ∧
      (y = x ∨ (x.isNaN = true ∧ y.isNaN = true)) := by
  by_cases hplain : f = .delta ∧ x.isFinite = false
  · obtain ⟨rfl, hfinite⟩ := hplain
    have hwritten : delta.writePlain .double (.double x) = .string (Native.sentinel x) := by
      simp [writePlain, hfinite]
    rw [hwritten]
    unfold Native.readFloating
    rcases Native.toDouble_sentinel hfinite .double with ⟨hnan, hread⟩ | ⟨hx, hread⟩
    · rw [hread]
      exact ⟨_, rfl, .inr ⟨hnan, by decide⟩⟩
    · rw [hread]
      exact ⟨_, rfl, .inl hx.symm⟩
  · have hwritten : f.writePlain .double (.double x) = .double x := by
      cases f <;> simp_all [writePlain]
    rw [hwritten]
    exact ⟨x, rfl, .inl rfl⟩

/-! ## Bounds of columns -/

/-- What a bound of a column comes back as: a value that is no number as such a value, an instant
as what the format keeps of it, a decimal as the same number at the declared scale, and everything
else as it was. -/
def Restores (f : TableFormat) (field : Schema) (v back : Value) : Prop :=
  match field.type, v with
  | .timestamp, .long instant | .timestampNtz, .long instant =>
    ∃ kept, back = .long kept ∧ kept.toInt = f.keptInstant field.precision instant.toInt
  | .decimal, .decimal d =>
    ∃ e, back = .decimal e ∧ e.number = d.number ∧
      field.decimalScale?.map (·.toNat) = some e.scale
  | .float, .float x =>
    ∃ y, back = .float y ∧ (y = x ∨ (x.isNaN = true ∧ y.isNaN = true))
  | .double, .double x =>
    ∃ y, back = .double y ∧ (y = x ∨ (x.isNaN = true ∧ y.isNaN = true))
  | _, _ => back = v

theorem isNull_writePlain {f : TableFormat} {type : DataType} {v : Value}
    (h : v.isNull = false) : (f.writePlain type v).isNull = false := by
  unfold writePlain
  split
  · split <;> rfl
  · split <;> rfl
  · exact h

/-- **Statistics survive every format**: whatever bound a format stores, it comes back from it. -/
theorem statFromNative_statToNative {f : TableFormat} {field : Schema} {v native : Value}
    (hv : Canonical field.type v) (h : f.statToNative v field = .ok native) :
    ∃ back, f.statFromNative native field = .ok back ∧ f.Restores field v back := by
  obtain ⟨name, type, comment, nullable, fields, metadata⟩ := field
  simp only at hv
  cases hv with
  | null =>
    cases h
    refine ⟨.null, rfl, ?_⟩
    cases type <;> rfl
  | date day =>
    have hread := readDay_writeDay (f := f) h
    have hpresent : native.isNull = false := by
      cases native with
      | null => cases f <;> cases hread
      | _ => rfl
    refine ⟨.int day, ?_, rfl⟩
    unfold statFromNative
    rw [hpresent]
    exact hread
  | timestamp instant | timestampNtz instant =>
    obtain ⟨back, hread, hback⟩ := readInstant_writeInstant (f := f) h
    have hpresent : native.isNull = false := by
      cases native with
      | null => cases f <;> cases hread
      | _ => rfl
    refine ⟨.long back, ?_, back, rfl, hback⟩
    unfold statFromNative
    rw [hpresent]
    exact hread
  | decimal d =>
    obtain ⟨e, rfl, hnumber, hscale, hread⟩ := readDecimal_readDecimal h
    exact ⟨.decimal e, hread, e, rfl, hnumber, hscale⟩
  | float x =>
    cases h
    obtain ⟨y, hread, hy⟩ := readFloating_writePlain_float f x
    refine ⟨.float y, ?_, y, rfl, hy⟩
    unfold statFromNative
    rw [isNull_writePlain rfl]
    simp only [Native.readCommon, hread, ok_bind]
    rfl
  | double x =>
    cases h
    obtain ⟨y, hread, hy⟩ := readFloating_writePlain_double f x
    refine ⟨.double y, ?_, y, rfl, hy⟩
    unfold statFromNative
    rw [isNull_writePlain rfl]
    simp only [Native.readCommon, hread, ok_bind]
    rfl
  | boolean | int | long | string | symbol | uuidText | uuid | bytes | fixed =>
    cases f <;> cases h <;> exact ⟨_, rfl, rfl⟩

/-- Half a second before 1970 is the last second of 1969 in Delta, and comes back as that. -/
theorem statFromNative_statToNative_half_second_before_1970 :
    let field : Schema :=
      ⟨"at", .timestamp, none, false, [], ⟨some (.precision .micros), none, none, none, none⟩⟩
    delta.statToNative (.long (-500000)) field = .ok (.string "1969-12-31 23:59:59") ∧
      ∃ back, delta.statFromNative (.string "1969-12-31 23:59:59") field = .ok back ∧
        delta.Restores field (.long (-500000)) back :=
  have hwritten : delta.statToNative (.long (-500000)) ⟨"at", .timestamp, none, false, [],
      ⟨some (.precision .micros), none, none, none, none⟩⟩ =
        .ok (.string "1969-12-31 23:59:59") := by decide +kernel
  ⟨hwritten, statFromNative_statToNative (.timestamp (-500000)) hwritten⟩

end TableFormat

end Lakehouse
