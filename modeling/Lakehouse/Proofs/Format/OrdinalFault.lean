import Lakehouse.Proofs.Format.Ordinal
import Lakehouse.Proofs.Partition.Refusal
import Mathlib

/-!
# Why a value has no ordinal

An ordinal is asked for through three steps: the value stands for an instant, the instant is put
into a bucket, and the number of the bucket has to fit into 32 bits. The first and the last step
refuse a value as a partition value. The step between them reads the calendar, and what it cannot
name is refused as a text would be.

* `Ordinal.StandsFor`: the instant of a value, apart from how it is computed.
* `Ordinal.Dated`: the instants whose day can be named where a transform asks for it;
  `Ordinal.exists_index_iff`: these have a bucket.
* `Ordinal.Refused`: why a value has no ordinal, with the kind of the fault.
* `Ordinal.ordinal_faults`: `Ordinal.Refused` is exact; and an ordinal that stands for no bucket is
  refused as a partition value, or for its column.

About `transform_ordinal` and `from_transform_ordinal`, which are modelled in `Format.Ordinal`.
-/

namespace Lakehouse.Ordinal

variable {t : Transform} {type : DataType} {v : Value} {x : Int64} {k : Int} {f : Fault}

/-! ## What can be wrong -/

/-- The instant, in milliseconds, that a value of a column stands for. -/
inductive StandsFor : DataType → Value → Int → Prop where
  | date (day : Int32) : StandsFor .date (.int day) (day.toInt * EpochDay.millisPerDay)
  | timestamp (x : Int64) : StandsFor .timestamp (.long x) x.toInt
  | timestampNtz (x : Int64) : StandsFor .timestampNtz (.long x) x.toInt

/-- Whether a number is one of 32 bits. -/
def FitsInt (n : Int) : Prop := -2 ^ 31 ≤ n ∧ n < 2 ^ 31

/-- Whether a number is one of 64 bits. -/
def FitsLong (n : Int) : Prop := -2 ^ 63 ≤ n ∧ n < 2 ^ 63

/-- Whether the day of an instant can be named where a transform asks for it: days are counted in 32
bits, months and years are those of the supported years. -/
def Dated (t : Transform) (x : Int) : Prop :=
  match t with
  | .day => FitsInt (x / EpochDay.millisPerDay)
  | .month | .year =>
    beginOf .year (Date.firstYear - 1970) ≤ x ∧ x < beginOf .year (Date.lastYear + 1 - 1970)
  | .hour | .value => True

/-- Why a value has no ordinal, and the kind of fault that says so: the column holds no points in
time; the value is none of the column's; the hour has too large a number; the day cannot be named;
or, without a transform of time, the microseconds of the instant leave 64 bits. -/
inductive Refused (type : DataType) (t : Transform) (v : Value) : Fault.Kind → Prop where
  | column (ht : t.isTimeBased = true) (hnull : v.isNull = false)
      (htype : type.isTemporal = false) : Refused type t v .unsupportedFeature
  | value (ht : t.isTimeBased = true) (hnull : v.isNull = false) (htype : type.isTemporal = true)
      (hv : ∀ x, ¬ StandsFor type v x) : Refused type t v .invalidPartitionValue
  | hour {x : Int} (ht : t = .hour) (hv : StandsFor type v x)
      (hx : ¬ FitsInt (x / Bucket.millisPerHour)) : Refused type t v .invalidPartitionValue
  | undated {x : Int} (ht : t.isTimeBased = true) (hv : StandsFor type v x) (hx : ¬ Dated t x) :
      Refused type t v .parseException
  | micros {x : Int} (ht : t = .value) (hv : StandsFor type v x) (htype : type ≠ .date)
      (hx : ¬ FitsLong (x * 1000)) : Refused type t v .invalidPartitionValue

theorem StandsFor.isNull {a : Int} (h : StandsFor type v a) : v.isNull = false := by
  cases h <;> rfl

theorem StandsFor.isTemporal {a : Int} (h : StandsFor type v a) : type.isTemporal = true := by
  cases h <;> rfl

/-! ## The instant of a value -/

theorem instant_of_standsFor (h : StandsFor type v x.toInt) : instant v type t = .ok x := by
  unfold instant
  rw [if_pos h.isTemporal]
  generalize hx : x.toInt = a at h
  cases h with
  | date day => exact mapError_eq_ok.mpr (millis_eq_ok_iff.mpr hx)
  | timestamp y => rw [Int64.toInt_inj.mp hx]; rfl
  | timestampNtz y => rw [Int64.toInt_inj.mp hx]; rfl

/-- The instant of a value is one of 64 bits. -/
theorem StandsFor.exists_instant {a : Int} (h : StandsFor type v a) (t : Transform) :
    ∃ x : Int64, x.toInt = a ∧ instant v type t = .ok x := by
  have hx : ∃ x : Int64, x.toInt = a := by
    cases h with
    | date day =>
      obtain ⟨x, hx⟩ := exists_millis day
      exact ⟨x, millis_eq_ok_iff.mp hx⟩
    | timestamp y => exact ⟨y, rfl⟩
    | timestampNtz y => exact ⟨y, rfl⟩
  obtain ⟨x, rfl⟩ := hx
  exact ⟨x, rfl, instant_of_standsFor h⟩

/-- A value that stands for no instant is none of the column's. -/
theorem instant_of_not_standsFor (htype : type.isTemporal = true)
    (hv : ∀ a, ¬ StandsFor type v a) :
    instant v type t = .error (Bucket.notTemporal v type) := by
  unfold instant
  rw [if_pos htype]
  cases type with
  | date =>
    cases v with
    | int day => exact absurd (.date day) (hv _)
    | _ => rfl
  | timestamp =>
    cases v with
    | long y => exact absurd (.timestamp y) (hv _)
    | _ => rfl
  | timestampNtz =>
    cases v with
    | long y => exact absurd (.timestampNtz y) (hv _)
    | _ => rfl
  | _ => cases htype

/-- A value has an instant, or it is refused for the column or as a value. -/
theorem standsFor_or_refused (type : DataType) (ht : t.isTimeBased = true)
    (hnull : v.isNull = false) :
    (∃ x, instant v type t = .ok x ∧ StandsFor type v x.toInt) ∨
      ∃ f, instant v type t = .error f ∧ Refused type t v f.kind := by
  by_cases hv : ∃ a, StandsFor type v a
  · obtain ⟨a, ha⟩ := hv
    obtain ⟨x, rfl, hx⟩ := ha.exists_instant t
    exact .inl ⟨x, hx, ha⟩
  · have hnone : ∀ a, ¬ StandsFor type v a := fun a ha => hv ⟨a, ha⟩
    cases htype : type.isTemporal with
    | false =>
      refine .inr ⟨Bucket.unsupported type t, ?_, .column ht hnull htype⟩
      unfold instant
      rw [htype, if_neg Bool.false_ne_true]
    | true =>
      exact .inr ⟨_, instant_of_not_standsFor htype hnone, .value ht hnull htype hnone⟩

/-! ## The bucket of an instant -/

/-- **An instant has a bucket if its day can be named.** -/
theorem exists_index_iff : (∃ k, index t x = .ok k) ↔ Dated t x.toInt := by
  cases t with
  | value | hour => exact iff_of_true ⟨_, rfl⟩ trivial
  | day =>
    refine Iff.trans ?_ EpochDay.exists_ofMillis_iff
    constructor
    · rintro ⟨k, hk⟩
      obtain ⟨day, hday, -⟩ := bind_eq_ok.mp hk
      exact ⟨day, hday⟩
    · rintro ⟨day, hday⟩
      exact ⟨_, bind_eq_ok.mpr ⟨day, hday, rfl⟩⟩
  | month | year =>
    refine Iff.trans ?_ exists_dateOf_iff
    constructor
    · rintro ⟨k, hk⟩
      obtain ⟨d, hd, -⟩ := bind_eq_ok.mp hk
      exact ⟨d, hd⟩
    · rintro ⟨d, hd⟩
      exact ⟨_, bind_eq_ok.mpr ⟨d, hd, rfl⟩⟩

theorem kind_of_dateOf (h : Bucket.dateOf x = .error f) : f.kind = .parseException := by
  unfold Bucket.dateOf at h
  split at h
  · cases h
  · cases h
    rfl

/-- The calendar refuses an instant as it refuses a text. -/
theorem kind_of_index (h : index t x = .error f) : f.kind = .parseException := by
  cases t with
  | value | hour => cases h
  | day =>
    rcases bind_eq_error.mp h with h | ⟨day, -, h⟩
    · exact EpochDay.kind_of_ofMillis h
    · cases h
  | month | year =>
    rcases bind_eq_error.mp h with h | ⟨d, -, h⟩
    · exact kind_of_dateOf h
    · cases h

/-! ## The number of a bucket -/

theorem kind_of_stored (h : stored t k = .error f) : f.kind = .invalidPartitionValue := by
  unfold stored at h
  split at h
  · cases h
  · cases h
    rfl

theorem int32?_eq_some_iff {n : Int} : (∃ w, int32? n = some w) ↔ FitsInt n := by
  constructor
  · rintro ⟨w, hw⟩
    rw [← toInt_of_int32? hw]
    exact ⟨Int32.le_toInt w, Int32.toInt_lt w⟩
  · exact fun h => ⟨_, if_pos h⟩

theorem exists_stored_iff : (∃ w, stored t k = .ok w) ↔ FitsInt k := by
  rw [← int32?_eq_some_iff]
  unfold stored
  cases int32? k with
  | none => exact iff_of_false nofun nofun
  | some n => exact iff_of_true ⟨_, rfl⟩ ⟨n, rfl⟩

/-- The number of a bucket fits into 32 bits, unless it is that of an hour. -/
theorem fitsInt_of_index (ht : t.isTimeBased = true) (hhour : t ≠ .hour)
    (h : index t x = .ok k) : FitsInt k := by
  unfold FitsInt
  cases t with
  | value => cases ht
  | hour => exact absurd rfl hhour
  | day =>
    obtain ⟨day, -, h⟩ := bind_eq_ok.mp h
    cases h
    exact ⟨Int32.le_toInt day, Int32.toInt_lt day⟩
  | month =>
    obtain ⟨d, hd, h⟩ := bind_eq_ok.mp h
    cases h
    obtain ⟨hvalid, ⟨hfirst, hlast⟩, -⟩ := dateOf_eq_ok_iff.mp hd
    obtain ⟨hmonth, hmonth'⟩ := hvalid.month_mem
    unfold Date.firstYear at hfirst
    unfold Date.lastYear at hlast
    unfold monthsSinceEpoch
    omega
  | year =>
    obtain ⟨d, hd, h⟩ := bind_eq_ok.mp h
    cases h
    obtain ⟨-, ⟨hfirst, hlast⟩, -⟩ := dateOf_eq_ok_iff.mp hd
    unfold Date.firstYear at hfirst
    unfold Date.lastYear at hlast
    omega

theorem ofMillis_micros_eq_error :
    (∃ f, Precision.micros.ofMillis x = .error f) ↔ ¬ FitsLong (x.toInt * 1000) := by
  simp only [Precision.ofMillis, int64?, FitsLong]
  by_cases hfits : -2 ^ 63 ≤ x.toInt * 1000 ∧ x.toInt * 1000 < 2 ^ 63
  · rw [if_pos hfits]
    exact iff_of_false nofun (not_not.mpr hfits)
  · rw [if_neg hfits]
    exact iff_of_true ⟨_, rfl⟩ hfits

/-! ## Every fault has its reason -/

theorem ofValue_of_timeBased (ht : t.isTimeBased = true) (hnull : v.isNull = false) :
    ofValue v type t = (do stored t (← index t (← instant v type t))) := by
  unfold ofValue
  rw [hnull, if_neg Bool.false_ne_true, if_pos ht]

/-- Without a transform of time a value is refused only for the microseconds of an instant. -/
theorem refused_of_value (h : ofValue v type .value = .error f) : Refused type .value v f.kind := by
  have hmicros : ∀ {x : Int64}, type ≠ .date → StandsFor type v x.toInt →
      (do return .long (← (Precision.micros.ofMillis x).mapError
        (Fault.recode .invalidPartitionValue)) : Except Fault Value) = .error f →
      Refused type .value v f.kind := by
    intro x htype hx h
    rcases bind_eq_error.mp h with h | ⟨n, -, h⟩
    · obtain ⟨e, he, rfl⟩ := mapError_eq_error.mp h
      exact .micros rfl hx htype (ofMillis_micros_eq_error.mp ⟨e, he⟩)
    · cases h
  unfold ofValue at h
  split at h
  · cases h
  · rw [if_neg (by exact Bool.false_ne_true)] at h
    split at h
    · exact hmicros nofun (.timestamp _) h
    · exact hmicros nofun (.timestampNtz _) h
    · cases h

theorem refused_of_ofValue (h : ofValue v type t = .error f) : Refused type t v f.kind := by
  cases ht : t.isTimeBased with
  | false =>
    cases t with
    | value => exact refused_of_value h
    | _ => cases ht
  | true =>
    cases hnull : v.isNull with
    | true =>
      unfold ofValue at h
      rw [hnull, if_pos rfl] at h
      cases h
    | false =>
      rw [ofValue_of_timeBased ht hnull] at h
      rcases standsFor_or_refused type ht hnull with ⟨x, hx, hv⟩ | ⟨e, he, hrefused⟩
      · rw [hx, ok_bind] at h
        rcases bind_eq_error.mp h with hindex | ⟨k, hk, hstored⟩
        · rw [kind_of_index hindex]
          refine .undated ht hv fun hdated => ?_
          obtain ⟨k, hk⟩ := exists_index_iff.mpr hdated
          cases hindex.symm.trans hk
        · have hwide : ¬ FitsInt k := fun hfits => by
            obtain ⟨w, hw⟩ := exists_stored_iff.mpr hfits
            cases hstored.symm.trans hw
          rw [kind_of_stored hstored]
          by_cases hhour : t = .hour
          · subst hhour
            cases hk
            exact .hour rfl hv hwide
          · exact absurd (fitsInt_of_index ht hhour hk) hwide
      · rw [he] at h
        cases h
        exact hrefused

/-- Each reason leaves a value without an ordinal, with a fault of the reason's kind. -/
theorem Refused.exists_fault {kind : Fault.Kind} (h : Refused type t v kind) :
    ∃ f, ofValue v type t = .error f ∧ f.kind = kind := by
  cases h with
  | column ht hnull htype =>
    refine ⟨Bucket.unsupported type t, ?_, rfl⟩
    rw [ofValue_of_timeBased ht hnull]
    unfold instant
    rw [htype]
    rfl
  | value ht hnull htype hv =>
    refine ⟨Bucket.notTemporal v type, ?_, rfl⟩
    rw [ofValue_of_timeBased ht hnull, instant_of_not_standsFor htype hv]
    rfl
  | hour ht hv hx =>
    subst ht
    obtain ⟨x, rfl, hinstant⟩ := hv.exists_instant .hour
    have hindex : index .hour x = .ok (x.toInt / Bucket.millisPerHour) := rfl
    rw [ofValue_of_timeBased rfl hv.isNull, hinstant, ok_bind, hindex, ok_bind]
    cases hstored : stored .hour (x.toInt / Bucket.millisPerHour) with
    | ok w => exact absurd (exists_stored_iff.mp ⟨w, hstored⟩) hx
    | error f => exact ⟨f, rfl, kind_of_stored hstored⟩
  | undated ht hv hx =>
    obtain ⟨x, rfl, hinstant⟩ := hv.exists_instant t
    rw [ofValue_of_timeBased ht hv.isNull, hinstant, ok_bind]
    cases hindex : index t x with
    | ok k => exact absurd (exists_index_iff.mp ⟨k, hindex⟩) hx
    | error f => exact ⟨f, rfl, kind_of_index hindex⟩
  | micros ht hv htype hx =>
    subst ht
    cases hv with
    | date day => exact absurd rfl htype
    | timestamp y | timestampNtz y =>
      obtain ⟨e, he⟩ := ofMillis_micros_eq_error.mpr hx
      refine ⟨Fault.recode .invalidPartitionValue e, ?_, rfl⟩
      simp only [ofValue, he]
      rfl

/-- **An ordinal that stands for no bucket** is refused as a partition value, or for the column. -/
theorem kind_of_toValue (h : toValue v type t = .error f) :
    (f.kind = .unsupportedFeature ∧ type.isTemporal = false ∧ t.isTimeBased = true) ∨
      (f.kind = .invalidPartitionValue ∧ type.isTemporal = true ∧ t.isTimeBased = true) := by
  unfold toValue at h
  split at h
  · cases h
  · split at h
    · rename_i ht
      split at h
      · rename_i htype
        refine .inr ⟨?_, htype, ht⟩
        rcases bind_eq_error.mp h with h | ⟨n, -, h⟩
        · unfold number at h
          split at h
          · cases h
          · cases h
          · cases h
            rfl
        · split at h
          · cases h
            rfl
          · obtain ⟨e, -, rfl⟩ := mapError_eq_error.mp h
            rfl
      · rename_i htype
        cases h
        exact .inl ⟨rfl, Bool.eq_false_iff.mpr htype, ht⟩
    · split at h <;> cases h

/-- **Ordinals name what is wrong, except beyond the calendar.** A value has no ordinal exactly if
one of the reasons of `Refused` holds, and the fault has the kind of the reason; so it is a bad
partition value or a column without points in time, wherever the day of the instant can be named.
An ordinal that is read is refused as a bad partition value, or for such a column. -/
theorem ordinal_faults (v : Value) (type : DataType) (t : Transform) :
    (∀ kind, (∃ f, ofValue v type t = .error f ∧ f.kind = kind) ↔ Refused type t v kind) ∧
    ((∀ x, StandsFor type v x → Dated t x) → ∀ f, ofValue v type t = .error f →
      f.kind = .invalidPartitionValue ∨
        (f.kind = .unsupportedFeature ∧ type.isTemporal = false ∧ t.isTimeBased = true)) ∧
    ∀ f, toValue v type t = .error f →
      f.kind = .invalidPartitionValue ∨
        (f.kind = .unsupportedFeature ∧ type.isTemporal = false ∧ t.isTimeBased = true) := by
  refine ⟨fun kind => ⟨?_, Refused.exists_fault⟩, ?_, ?_⟩
  · rintro ⟨f, hf, rfl⟩
    exact refused_of_ofValue hf
  · intro hdated f hf
    have hrefused := refused_of_ofValue hf
    generalize f.kind = kind at hrefused
    cases hrefused with
    | column ht _ htype => exact .inr ⟨rfl, htype, ht⟩
    | value | hour | micros => exact .inl rfl
    | undated _ hv hx => exact absurd (hdated _ hv) hx
  · intro f hf
    rcases kind_of_toValue hf with hcolumn | ⟨hkind, -, -⟩
    · exact .inr hcolumn
    · exact .inl hkind

/-- The first day that 32 bits do not count, the hour of the last instant of 64 bits, and a text
column. -/
theorem ordinal_faults_edges :
    (∃ f, ofValue (.long 185542587187200000) .timestamp .day = .error f ∧
      f.kind = .parseException) ∧
    (∃ f, ofValue (.long Int64.maxValue) .timestamp .hour = .error f ∧
      f.kind = .invalidPartitionValue) ∧
    ∃ f, ofValue (.string "2020") .string .year = .error f ∧ f.kind = .unsupportedFeature := by
  refine ⟨((ordinal_faults _ _ _).1 _).mpr (.undated rfl (.timestamp _) ?_),
    ((ordinal_faults _ _ _).1 _).mpr (.hour rfl (.timestamp _) ?_),
    ((ordinal_faults _ _ _).1 _).mpr (.column rfl rfl rfl)⟩
  · show ¬ (_ ∧ _)
    decide
  · show ¬ (_ ∧ _)
    decide

/-- The last instant of 64 bits is out of the range of dates, and is refused as a text is that
cannot be read. -/
theorem last_instant_is_unparsed :
    ¬ ∀ f, ofValue (.long 9223372036854775807) .timestamp .day = .error f →
      f.kind = .invalidPartitionValue ∨ f.kind = .unsupportedFeature := by
  intro h
  have hfault : ofValue (.long 9223372036854775807) .timestamp .day =
      .error ⟨.parseException, "9223372036854775807 ms is out of the date range"⟩ := by
    decide +kernel
  cases h _ hfault with
  | inl hkind => cases hkind
  | inr hkind => cases hkind

end Lakehouse.Ordinal
