import Lakehouse.Format.PartitionValue
import Lakehouse.Proofs.Format.Ordinal
import Lakehouse.Proofs.Partition.Bucket
import Mathlib

/-!
# Two encodings of a bucket

Iceberg writes a bucket twice: as an ordinal in the partition tuple, and as a text under a fixed
pattern. Both are read back as the start of the bucket, in every year the calendar has.

* `Ordinal.toValue_of_ofValue`: the ordinal of a value is read as the start of the value's bucket.
* `DatePattern.names_human`, `DatePattern.spells_human`: the fixed patterns say everything about the
  start of a bucket, also in a year that carries a sign.
* `TableFormat.encodings_agree`: ordinal and text are read as one value.

About `transform_ordinal`, `from_transform_ordinal` and the partition texts of `human_pattern`,
which are modelled in `Format.Ordinal` and `Format.PartitionValue`.
-/

namespace Lakehouse

/-! ## Ordinals -/

namespace Ordinal

variable {t : Transform} {type : DataType} {v : Value}

theorem instant_eq_ok {millis : Int64} (h : instant v type t = .ok millis) :
    Bucket.instant v type = .ok millis := by
  unfold instant at h
  split at h
  · split at h
    · exact mapError_eq_ok.mp h
    · exact h
  · cases h

theorem monthStart?_of_inRange {k : Int} (h : (monthDay k).InRange) :
    monthStart? k = some ((monthDay k).dayNumber * EpochDay.millisPerDay) :=
  Option.map_eq_some_iff.mpr ⟨monthDay k, Date.make?_of_valid (valid_monthDay k) h, rfl⟩

/-- **The bucket of an instant starts where the instant is truncated to.** -/
theorem start?_of_index {millis begin : Int64} {n : Int32} (hn : index t millis = .ok n.toInt)
    (hbegin : Bucket.start t millis = .ok begin) :
    start? t (Int64.ofInt n.toInt) = some begin := by
  cases t with
  | value =>
    cases hbegin
    have hvalue : millis.toInt = n.toInt := Except.ok.inj hn
    rw [← hvalue, Int64.ofInt_toInt]
    rfl
  | hour =>
    have hvalue : millis.toInt / Bucket.millisPerHour = n.toInt := Except.ok.inj hn
    have hfloor := Bucket.floorTo_eq_ok hbegin
    simp only [start?, toInt_ofInt_toInt]
    rw [← hvalue, ← hfloor, int64?_toInt]
  | day =>
    obtain ⟨day, hday, hn⟩ := bind_eq_ok.mp hn
    have hvalue : day.toInt = n.toInt := Except.ok.inj hn
    have hfloor := Bucket.floorTo_eq_ok hbegin
    simp only [start?, toInt_ofInt_toInt]
    rw [← hvalue, EpochDay.ofMillis_eq_ok.mp hday, ← hfloor, int64?_toInt]
  | month =>
    obtain ⟨d, hd, hn⟩ := bind_eq_ok.mp hn
    have hvalue : monthsSinceEpoch d = n.toInt := Except.ok.inj hn
    obtain ⟨e, he, hbegin⟩ := bind_eq_ok.mp hbegin
    cases hd.symm.trans he
    cases hbegin
    obtain ⟨hvalid, hrange⟩ := Bucket.dateOf_eq_ok hd
    have hmonth := monthDay_monthsSinceEpoch hvalid
    simp only [start?, toInt_ofInt_toInt]
    rw [← hvalue, monthStart?_of_inRange (hmonth ▸ hrange), hmonth]
    rfl
  | year =>
    obtain ⟨d, hd, hn⟩ := bind_eq_ok.mp hn
    have hvalue : d.year - 1970 = n.toInt := Except.ok.inj hn
    obtain ⟨e, he, hbegin⟩ := bind_eq_ok.mp hbegin
    cases hd.symm.trans he
    cases hbegin
    have hyear : monthDay ((d.year - 1970) * 12) = ⟨d.year, 1, 1⟩ := by
      rw [monthDay_twelve, show 1970 + (d.year - 1970) = d.year by omega]
    simp only [start?, toInt_ofInt_toInt]
    rw [← hvalue, monthStart?_of_inRange (hyear ▸ (Bucket.dateOf_eq_ok hd).2), hyear]
    rfl

/-- **The ordinal of a value is read as the start of the value's bucket.** -/
theorem toValue_of_ofValue {ordinal value : Value} (ht : t.isTimeBased = true)
    (hnull : v.isNull = false) (hordinal : ofValue v type t = .ok ordinal)
    (hvalue : Bucket.valueOf v type t = .ok value) : toValue ordinal type t = .ok value := by
  unfold ofValue at hordinal
  rw [hnull, if_neg Bool.false_ne_true, if_pos ht] at hordinal
  obtain ⟨millis, hmillis, hordinal⟩ := bind_eq_ok.mp hordinal
  obtain ⟨k, hk, hstored⟩ := bind_eq_ok.mp hordinal
  obtain ⟨millis', hmillis', hvalue⟩ := bind_eq_ok.mp hvalue
  cases (instant_eq_ok hmillis).symm.trans hmillis'
  obtain ⟨begin, hbegin, hcanonical⟩ := bind_eq_ok.mp hvalue
  have htype : type.isTemporal = true := by
    unfold instant at hmillis
    split at hmillis
    · assumption
    · cases hmillis
  unfold stored at hstored
  split at hstored
  · rename_i n hn
    cases hstored
    rw [← toInt_of_int32? hn] at hk
    unfold toValue
    rw [if_neg (by exact Bool.false_ne_true), if_pos ht, if_pos htype]
    simp only [number, ok_bind, start?_of_index hk hbegin]
    exact mapError_eq_ok.mpr hcanonical
  · cases hstored

end Ordinal

/-! ## Texts -/

namespace DatePattern

/-- The tokens of the fixed pattern of each transform. -/
def humanTokens : Transform → List Token
  | .year => [.field .year]
  | .month => [.field .year, .char '-', .field .month]
  | .day => days
  | .hour => days ++ [.char '-', .field .hour]
  | .value => micros.tokens

theorem compile_human (t : Transform) : compile (human t) = .ok ⟨human t, humanTokens t⟩ := by
  cases t <;> cbv

/-- The fixed pattern of seconds is what its text spells. -/
theorem compile_seconds : compile seconds.source = .ok seconds := by cbv

theorem names_human (t : Transform) : Bucket.Names t ⟨human t, humanTokens t⟩ := by
  cases t <;> exact ⟨by decide, by decide, by decide, by decide⟩

/-- **A fixed pattern says everything about the start of a bucket**, in every year: a year ends at
what separates it from the month. -/
theorem spells_human {t : Transform} {c : DateTime} (ht : t.isTimeBased = true)
    (hbegins : Bucket.Begins t c) : Spells ⟨human t, humanTokens t⟩ c := by
  have hcentury : .yearOfCentury ∉ fields (humanTokens t) := by cases t <;> decide
  refine (names_human t).spells_of_exact ht (compile_human t) hbegins
    (fun h => absurd h hcentury) ?_
  cases t with
  | value => cases ht
  | year | month | day | hour =>
    exact exact_year_cons rfl ⟨trivial, trivial, trivial, trivial, trivial, trivial⟩

end DatePattern

/-! ## Both encodings -/

namespace TableFormat

/-- **Ordinal and text of a bucket agree.** Whenever a value that is present has an ordinal and a
text under a transform of time, both are read as one value: the start of the value's bucket, in
every year the calendar has. -/
theorem encodings_agree {t : Transform} {type : DataType} {v ordinal : Value}
    {text : Option String} {pattern : String} (ht : t.isTimeBased = true)
    (hnull : v.isNull = false) (hordinal : Ordinal.ofValue v type t = .ok ordinal)
    (htext : iceberg.partitionToNative v type t pattern = .ok text) :
    ∃ value, Bucket.valueOf v type t = .ok value ∧
      Ordinal.toValue ordinal type t = .ok value ∧
      iceberg.partitionFromNative text type t pattern = .ok value := by
  unfold partitionToNative at htext
  rw [hnull, if_neg Bool.false_ne_true, if_pos ht] at htext
  obtain ⟨written, hwritten, htext⟩ := bind_eq_ok.mp htext
  cases htext
  obtain ⟨value, hvalue, hparse⟩ := Bucket.parse_render_of_spells ht hwritten
    fun p millis begin c hp _ _ _ hbegins => by
      cases (DatePattern.compile_human t).symm.trans hp
      exact DatePattern.spells_human ht hbegins
  refine ⟨value, hvalue, Ordinal.toValue_of_ofValue ht hnull hordinal hvalue, ?_⟩
  unfold partitionFromNative
  simp only [ht, if_true]
  exact hparse

/-- An hour in a year of five digits, and the Ides of March in a year before year zero. -/
theorem encodings_agree_beyond_four_digits :
    (∃ value, Bucket.valueOf (.long 327410618399999) .timestamp .hour = .ok value ∧
      Ordinal.toValue (.int 90947393) .timestamp .hour = .ok value ∧
      iceberg.partitionFromNative (some "+12345-03-25-17") .timestamp .hour "" = .ok value) ∧
    ∃ value, Bucket.valueOf (.int (-735525)) .date .month = .ok value ∧
      Ordinal.toValue (.int (-24166)) .date .month = .ok value ∧
      iceberg.partitionFromNative (some "-0044-03") .date .month "" = .ok value := by
  have hhour : Ordinal.ofValue (.long 327410618399999) .timestamp .hour = .ok (.int 90947393) := by
    decide +kernel
  have hhourText : iceberg.partitionToNative (.long 327410618399999) .timestamp .hour "" =
      .ok (some "+12345-03-25-17") := by decide +kernel
  have hmonth : Ordinal.ofValue (.int (-735525)) .date .month = .ok (.int (-24166)) := by
    decide +kernel
  have hmonthText : iceberg.partitionToNative (.int (-735525)) .date .month "" =
      .ok (some "-0044-03") := by decide +kernel
  exact ⟨encodings_agree rfl rfl hhour hhourText, encodings_agree rfl rfl hmonth hmonthText⟩

end TableFormat

end Lakehouse
