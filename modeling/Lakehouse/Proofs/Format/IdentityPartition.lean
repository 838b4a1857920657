import Lakehouse.Proofs.Format.Statistic
import Lakehouse.Proofs.Partition.Legible

/-!
# Partition values survive every format

Under the value transform, without a date pattern, each format has a text of its own for an instant:
Hudi its number, Delta date and time to the second, Iceberg date and time to the microsecond. All
other values have one text in all formats. Every text is read as the value it was written for, but
for what Delta leaves out.

* `DatePattern.readMillis_writeMillis_micros`: to the microsecond every instant comes back.
* `TableFormat.readInstantText_writeInstantText`: what comes back of an instant.
* `TableFormat.identity_partition_returns`: what comes back of a partition value; and absent values
  are those without a text.

About `partition_to_native` and `partition_from_native`, which are modelled in
`Format.PartitionValue`.
-/

namespace Lakehouse

/-! ## Instants to the microsecond -/

namespace DatePattern

/-- The pattern of microseconds says everything about a whole microsecond, in every year. -/
theorem spells_micros {t : DateTime} (hnanos : t.nanos % 1000 = 0) : micros.Spells t := by
  have hdefaults : defaults micros.tokens = [] := by decide
  have hlacking : lacking micros.tokens = [] := by decide
  refine ⟨by decide, fun h => absurd h (by decide), by decide, .inr (.inr (.inl (by decide))),
    ?_, ?_⟩
  · rw [hlacking, List.append_nil]
    exact exact_year_cons rfl ⟨trivial, trivial, trivial, trivial, trivial,
      ⟨.inr (.inl rfl), hnanos⟩, trivial⟩
  · rw [hdefaults]
    exact fun m hm => absurd hm List.not_mem_nil

/-- **To the microsecond every instant comes back**: no instant has anything finer. -/
theorem readMillis_writeMillis_micros {millis : Int64} {text : String}
    (h : micros.writeMillis millis = .ok text) : micros.readMillis text = .ok millis := by
  obtain ⟨t, ht, rfl⟩ := writeMillis_eq_ok.mp h
  obtain ⟨-, hnanos, -⟩ := DateTime.ofMillis?_eq_some.mp ht
  exact readMillis_writeMillis ht (spells_micros (by omega))

end DatePattern

namespace TableFormat

variable {format : TableFormat} {type : DataType} {v : Value} {text pattern : String}

/-! ## Instants without a pattern -/

/-- How a format spells an instant if no pattern is given; in Hudi it is not spelled. -/
def plainPattern : TableFormat → Option DatePattern
  | hudi => none
  | delta => some .seconds
  | iceberg => some .micros

theorem instantPattern_of_blank (hblank : Text.isAllBlank pattern = true) :
    format.instantPattern pattern = .ok format.plainPattern := by
  cases format with
  | hudi | delta => exact if_pos hblank
  | iceberg => rfl

/-- **What comes back of an instant**: in Delta its second, otherwise all of it. -/
theorem readInstantText_writeInstantText {instant : Int64}
    (hblank : Text.isAllBlank pattern = true)
    (h : format.writeInstantText instant pattern = .ok text) :
    ∃ kept, format.readInstantText text pattern = .ok kept ∧
      kept.toInt = format.keptInstant .millis instant.toInt := by
  unfold writeInstantText at h
  unfold readInstantText
  rw [instantPattern_of_blank hblank, ok_bind] at h ⊢
  cases format with
  | hudi =>
    cases h
    refine ⟨instant, ?_, rfl⟩
    simp only [plainPattern, Native.readLong_ofInt]
    rfl
  | delta =>
    obtain ⟨t, ht, hmillis, hread⟩ :=
      DatePattern.readMillis_writeMillis_seconds (mapError_eq_ok.mp h)
    exact ⟨Int64.ofInt t.millis, mapError_eq_ok.mpr hread, ht.toInt_ofInt_millis.trans hmillis⟩
  | iceberg =>
    have hread := DatePattern.readMillis_writeMillis_micros (mapError_eq_ok.mp h)
    exact ⟨instant, mapError_eq_ok.mpr hread, rfl⟩

/-! ## Partition values without a transform -/

/-- What a format gives back of a partition value: a value of its kind, with all of it, or with the
second that an instant falls into. -/
def Returns (format : TableFormat) (type : DataType) (v back : Value) : Prop :=
  match type, v with
  | .timestamp, .long instant | .timestampNtz, .long instant =>
    ∃ kept, back = .long kept ∧ kept.toInt = format.keptInstant .millis instant.toInt
  | _, _ => back = v

theorem keptInstant_of_ne_delta (h : format ≠ delta) (p : Precision) (instant : Int) :
    format.keptInstant p instant = instant := by
  cases format with
  | hudi | iceberg => rfl
  | delta => exact absurd rfl h

/-- Nothing is lost, but the parts of a second in Delta. -/
theorem Returns.eq {back : Value} (h : format.Returns type v back)
    (hexact : format ≠ delta ∨ type.isTimestamp = false) : back = v := by
  unfold Returns at h
  split at h
  case h_3 => exact h
  all_goals
    obtain ⟨kept, rfl, hkept⟩ := h
    rw [keptInstant_of_ne_delta (hexact.resolve_right nofun)] at hkept
    exact congrArg Value.long (Int64.toInt_inj.mp hkept)

/-- What is written under the value transform is read as what the format gives back. -/
theorem readIdentity_writeIdentity_returns (hblank : Text.isAllBlank pattern = true)
    (htype : type.isTyped = true ∨ type.isWord = true) (hv : Canonical type v)
    (hpresent : v.isNull = false) (h : format.writeIdentity v type pattern = .ok text) :
    ∃ back, format.readIdentity text type pattern = .ok back ∧ format.Returns type v back := by
  cases hinstant : type.isTimestamp with
  | false =>
    refine ⟨v, readIdentity_writeIdentity_of_not_instant htype hinstant hv hpresent h, ?_⟩
    cases type with
    | timestamp | timestampNtz => cases hinstant
    | _ => rfl
  | true =>
    cases hv with
    | timestamp instant | timestampNtz instant =>
      obtain ⟨kept, hread, hkept⟩ := readInstantText_writeInstantText hblank h
      refine ⟨.long kept, ?_, kept, rfl, hkept⟩
      unfold readIdentity
      rw [hread]
      rfl
    | null => cases hpresent
    | _ => cases hinstant

/-- A value has no text exactly if it is absent. -/
theorem partitionToNative_eq_none_iff {t : Transform} {native : Option String}
    (h : format.partitionToNative v type t pattern = .ok native) : native = none ↔ v = .null := by
  unfold partitionToNative at h
  split at h
  · rename_i hnull
    cases h
    cases v with
    | null => exact iff_of_true rfl rfl
    | _ => cases hnull
  · rename_i hpresent
    have hne : v ≠ .null := by
      rintro rfl
      exact hpresent rfl
    refine iff_of_false ?_ hne
    split at h
    all_goals
      obtain ⟨written, -, h⟩ := bind_eq_ok.mp h
      cases h
      nofun

/-- An absent value is what no text is read as. -/
theorem partitionFromNative_eq_null_iff {t : Transform} {native : Option String} {back : Value}
    (h : format.partitionFromNative native type t pattern = .ok back) :
    back = .null ↔ native = none := by
  cases native with
  | none =>
    cases h
    exact iff_of_true rfl rfl
  | some text =>
    have hpresent := isNull_of_fromNative h
    refine iff_of_false ?_ nofun
    rintro rfl
    cases hpresent

/-- **Partition values survive every format.** Without a transform of time and without a date
pattern, the text that a format writes for a value is read as the value, digit for digit, but that
Delta rounds an instant down to its second. Absent values, and no others, have no text; and what has
no text, and nothing else, is read as absent. -/
theorem identity_partition_returns (format : TableFormat) (type : DataType) (pattern : String)
    (htype : type.isTyped = true ∨ type.isWord = true)
    (hblank : Text.isAllBlank pattern = true) :
    (∀ v text, Canonical type v →
      format.partitionToNative v type .value pattern = .ok (some text) →
      ∃ back, format.partitionFromNative (some text) type .value pattern = .ok back ∧
        format.Returns type v back ∧
        (format ≠ delta ∨ type.isTimestamp = false → back = v)) ∧
    (∀ v native, format.partitionToNative v type .value pattern = .ok native →
      (native = none ↔ v = .null)) ∧
    (∀ native back, format.partitionFromNative native type .value pattern = .ok back →
      (back = .null ↔ native = none)) ∧
    format.partitionToNative .null type .value pattern = .ok none ∧
    format.partitionFromNative none type .value pattern = .ok .null := by
  refine ⟨fun v text hv h => ?_, fun v native h => partitionToNative_eq_none_iff h,
    fun native back h => partitionFromNative_eq_null_iff h, rfl, rfl⟩
  have hpresent : v.isNull = false := by
    cases v with
    | null => cases h
    | _ => rfl
  unfold partitionToNative at h
  rw [hpresent, if_neg Bool.false_ne_true, if_neg (by exact Bool.false_ne_true)] at h
  obtain ⟨written, hwritten, h⟩ := bind_eq_ok.mp h
  cases h
  obtain ⟨back, hread, hback⟩ :=
    readIdentity_writeIdentity_returns hblank htype hv hpresent hwritten
  refine ⟨back, ?_, hback, hback.eq⟩
  unfold partitionFromNative
  simp only [Transform.isTimeBased, Bool.false_eq_true, if_false]
  exact hread

/-- Half a second before 1970: Delta gives back the last second of 1969, and Iceberg the instant. A
blank is a string like any other. -/
theorem identity_partition_returns_half_second_before_1970 :
    (∃ back, delta.partitionFromNative (some "1969-12-31 23:59:59") .timestamp .value " " =
        .ok back ∧ delta.Returns .timestamp (.long (-500)) back) ∧
    iceberg.partitionFromNative (some "1969-12-31T23:59:59.500000") .timestamp .value " " =
      .ok (.long (-500)) ∧
    hudi.partitionFromNative (some " ") .string .value "" = .ok (.string " ") := by
  have hdelta : delta.partitionToNative (.long (-500)) .timestamp .value " " =
      .ok (some "1969-12-31 23:59:59") := by decide +kernel
  have hiceberg : iceberg.partitionToNative (.long (-500)) .timestamp .value " " =
      .ok (some "1969-12-31T23:59:59.500000") := by decide +kernel
  have hhudi : hudi.partitionToNative (.string " ") .string .value "" = .ok (some " ") := rfl
  obtain ⟨second, hsecond, hreturns, -⟩ := (identity_partition_returns delta .timestamp " "
    (.inl rfl) (by decide)).1 _ _ (.timestamp _) hdelta
  obtain ⟨instant, hinstant, -, hexact⟩ := (identity_partition_returns iceberg .timestamp " "
    (.inl rfl) (by decide)).1 _ _ (.timestamp _) hiceberg
  obtain ⟨blank, hblank, -, hsame⟩ := (identity_partition_returns hudi .string ""
    (.inr rfl) (by decide)).1 _ _ (.string _) hhudi
  refine ⟨⟨second, hsecond, hreturns⟩, ?_, ?_⟩
  · rw [hinstant, hexact (.inl nofun)]
  · rw [hblank, hsame (.inl nofun)]

end TableFormat

end Lakehouse
