import Lakehouse.Format.Ordinal
import Lakehouse.Proofs.Calendar.Instant
import Lakehouse.Proofs.Canonical
import Lakehouse.Proofs.Except
import Mathlib

/-!
# Ordinals number half-open buckets

The buckets of a time transform lie side by side: each goes from its first instant up to the first
instant of the next, before 1970 and after. The ordinal of a value is the number of the bucket that
the value is in.

* `Ordinal.beginOf`: where each bucket begins, and `Ordinal.beginOf_strictMono`: the buckets are in
  the order of time.
* `Ordinal.exists_dateOf_iff`: which instants the calendar has the date of.
* `Ordinal.index_spec`: an instant is in the bucket that it is put into.
* `Ordinal.toValue_int`: the start of a bucket stands for the instant at which the bucket begins.
* `Ordinal.ordinal_numbers_bucket`: a value has an ordinal exactly if it lies in that bucket;
  ordinals are in the order of the values, and the start of a bucket has the number of the bucket.

About `transform_ordinal` and `from_transform_ordinal`, which are modelled in `Format.Ordinal`.
-/

namespace Lakehouse

/-! ## Values in the order of time -/

namespace Value

/-- Two numbers of one kind, the first not after the second. -/
def NotAfter : Value → Value → Prop
  | .int a, .int b => a ≤ b
  | .long a, .long b => a ≤ b
  | _, _ => False

/-- Two numbers of one kind, the first before the second. -/
def Before : Value → Value → Prop
  | .int a, .int b => a < b
  | .long a, .long b => a < b
  | _, _ => False

end Value

/-! ## Months in a row -/

namespace Date

theorem monthLength_pos (year : Int) {m : Nat} (hfirst : 1 ≤ m) (hlast : m ≤ 12) :
    1 ≤ monthLength year m := by
  unfold monthLength
  split
  case h_12 => split <;> omega
  case h_13 => grind
  all_goals omega

end Date

namespace Ordinal

/-- The first day of the month so many months after January 1970. -/
def monthDay (k : Int) : Date := ⟨1970 + k / 12, (k % 12).toNat + 1, 1⟩

theorem valid_monthDay (k : Int) : (monthDay k).Valid := by
  refine ⟨Nat.le_refl 1, Date.monthLength_pos _ ?_ ?_⟩
  · exact Nat.le_add_left 1 _
  · show (k % 12).toNat + 1 ≤ 12
    omega

/-- A month ends where the next begins, also at the end of a year. -/
theorem dayNumber_monthDay_succ (k : Int) :
    (monthDay (k + 1)).dayNumber =
      (monthDay k).dayNumber + Date.monthLength (monthDay k).year (monthDay k).month := by
  by_cases hlast : k % 12 = 11
  · have hyear : 1970 + (k + 1) / 12 = 1970 + k / 12 + 1 := by omega
    have hmonth : ((k + 1) % 12).toNat + 1 = 1 := by omega
    have hmonth' : (k % 12).toNat + 1 = 12 := by omega
    have hlength := Date.daysBeforeMonth_thirteen (1970 + k / 12)
    unfold monthDay Date.dayNumber
    simp only
    rw [hyear, hmonth, hmonth', Date.daysBeforeYear_succ, ← hlength, Date.daysBeforeMonth_one,
      Date.daysBeforeMonth]
    omega
  · have hyear : 1970 + (k + 1) / 12 = 1970 + k / 12 := by omega
    have hmonth : ((k + 1) % 12).toNat + 1 = (k % 12).toNat + 1 + 1 := by omega
    unfold monthDay Date.dayNumber
    simp only
    rw [hyear, hmonth, Date.daysBeforeMonth]
    omega

/-- The month of a date begins on its first day. -/
theorem monthDay_monthsSinceEpoch {d : Date} (h : d.Valid) :
    monthDay (monthsSinceEpoch d) = ⟨d.year, d.month, 1⟩ := by
  obtain ⟨hfirst, hlast⟩ := h.month_mem
  have hyear : 1970 + monthsSinceEpoch d / 12 = d.year := by
    unfold monthsSinceEpoch
    omega
  have hmonth : (monthsSinceEpoch d % 12).toNat + 1 = d.month := by
    unfold monthsSinceEpoch
    omega
  unfold monthDay
  rw [hyear, hmonth]

theorem monthDay_twelve (k : Int) : monthDay (k * 12) = ⟨1970 + k, 1, 1⟩ := by
  have hyear : 1970 + k * 12 / 12 = 1970 + k := by omega
  have hmonth : (k * 12 % 12).toNat + 1 = 1 := by omega
  unfold monthDay
  rw [hyear, hmonth]

/-- **A date lies in its month.** -/
theorem month_spec {d : Date} (h : d.Valid) :
    (monthDay (monthsSinceEpoch d)).dayNumber ≤ d.dayNumber ∧
      d.dayNumber < (monthDay (monthsSinceEpoch d + 1)).dayNumber := by
  obtain ⟨hfirst, hlast⟩ := h
  rw [dayNumber_monthDay_succ, monthDay_monthsSinceEpoch ⟨hfirst, hlast⟩]
  unfold Date.dayNumber
  simp only
  omega

/-- **A date lies in its year.** -/
theorem year_spec {d : Date} (h : d.Valid) :
    (monthDay ((d.year - 1970) * 12)).dayNumber ≤ d.dayNumber ∧
      d.dayNumber < (monthDay ((d.year - 1970 + 1) * 12)).dayNumber := by
  have hnext : 1970 + (d.year - 1970 + 1) = d.year + 1 := by omega
  have hsame : 1970 + (d.year - 1970) = d.year := by omega
  have hlength := h.dayOfYear_lt
  rw [monthDay_twelve, monthDay_twelve, hnext, hsame, h.dayNumber_eq]
  unfold Date.dayNumber
  simp only
  rw [Date.daysBeforeYear_succ, Date.daysBeforeMonth_one, Date.daysBeforeMonth_one]
  omega

/-! ## Buckets in a row -/

/-- Where the bucket of a number begins, in milliseconds. -/
def beginOf (t : Transform) (k : Int) : Int :=
  match t with
  | .hour => k * Bucket.millisPerHour
  | .day => k * EpochDay.millisPerDay
  | .month => (monthDay k).dayNumber * EpochDay.millisPerDay
  | .year => (monthDay (k * 12)).dayNumber * EpochDay.millisPerDay
  | .value => k

theorem dayNumber_monthDay_strictMono : StrictMono fun k : Int => (monthDay k).dayNumber := by
  refine strictMono_int_of_lt_succ fun k => ?_
  have hlength := Date.monthLength_pos (monthDay k).year (m := (monthDay k).month)
    (valid_monthDay k).month_mem.1 (valid_monthDay k).month_mem.2
  rw [dayNumber_monthDay_succ]
  omega

/-- **The buckets of a transform are in the order of time.** -/
theorem beginOf_strictMono (t : Transform) : StrictMono (beginOf t) := by
  refine strictMono_int_of_lt_succ fun k => ?_
  cases t with
  | value | hour | day =>
    simp only [beginOf, Bucket.millisPerHour, EpochDay.millisPerDay]
    omega
  | month =>
    have hstep := dayNumber_monthDay_strictMono (show k < k + 1 by omega)
    simp only [beginOf, EpochDay.millisPerDay] at hstep ⊢
    omega
  | year =>
    have hstep := dayNumber_monthDay_strictMono (show k * 12 < (k + 1) * 12 by omega)
    simp only [beginOf, EpochDay.millisPerDay] at hstep ⊢
    omega

/-- The date of an instant is the one of its day, if its year is supported. -/
theorem dateOf_eq_ok_iff {millis : Int64} {d : Date} :
    Bucket.dateOf millis = .ok d ↔
      d.Valid ∧ d.InRange ∧ d.dayNumber = millis.toInt / EpochDay.millisPerDay := by
  unfold Bucket.dateOf DateTime.ofMillis?
  rw [← Date.ofDayNumber?_eq_some]
  unfold EpochDay.millisPerDay
  cases Date.ofDayNumber? (millis.toInt / 86400000) with
  | none => exact iff_of_false nofun nofun
  | some date =>
    simp only [Option.map_some, Except.ok.injEq, Option.some.injEq]
    rfl

/-- An instant lies in the year of its date. -/
theorem year_of_instant (x : Int) :
    let year := (Date.ofDayNumber (x / EpochDay.millisPerDay)).year
    beginOf .year (year - 1970) ≤ x ∧ x < beginOf .year (year - 1970 + 1) := by
  have hyear := year_spec (Date.valid_ofDayNumber (x / EpochDay.millisPerDay))
  rw [Date.dayNumber_ofDayNumber] at hyear
  simp only [beginOf, EpochDay.millisPerDay] at hyear ⊢
  omega

/-- **The calendar has the date of an instant** from the first instant of its first year up to the
end of its last. -/
theorem exists_dateOf_iff {millis : Int64} :
    (∃ d, Bucket.dateOf millis = .ok d) ↔
      beginOf .year (Date.firstYear - 1970) ≤ millis.toInt ∧
        millis.toInt < beginOf .year (Date.lastYear + 1 - 1970) := by
  have hyear := year_of_instant millis.toInt
  have hmono := beginOf_strictMono .year
  constructor
  · rintro ⟨d, hd⟩
    obtain ⟨hvalid, ⟨hfirst, hlast⟩, hday⟩ := dateOf_eq_ok_iff.mp hd
    rw [← hday, Date.ofDayNumber_dayNumber hvalid] at hyear
    exact ⟨(hmono.monotone (by omega)).trans hyear.1,
      hyear.2.trans_le (hmono.monotone (by omega))⟩
  · rintro ⟨hlow, hhigh⟩
    have hfirst := hmono.lt_iff_lt.mp (hlow.trans_lt hyear.2)
    have hlast := hmono.lt_iff_lt.mp (hyear.1.trans_lt hhigh)
    exact ⟨_, dateOf_eq_ok_iff.mpr ⟨Date.valid_ofDayNumber _, ⟨by omega, by omega⟩,
      Date.dayNumber_ofDayNumber _⟩⟩

/-- **An instant is in the bucket that it is put into.** -/
theorem index_spec {t : Transform} {millis : Int64} {k : Int} (h : index t millis = .ok k) :
    beginOf t k ≤ millis.toInt ∧ millis.toInt < beginOf t (k + 1) := by
  cases t with
  | value =>
    cases h
    simp only [beginOf]
    omega
  | hour =>
    cases h
    simp only [beginOf, Bucket.millisPerHour]
    omega
  | day =>
    obtain ⟨day, hday, h⟩ := bind_eq_ok.mp h
    cases h
    have hfloor := EpochDay.ofMillis_eq_ok.mp hday
    simp only [beginOf, EpochDay.millisPerDay] at hfloor ⊢
    omega
  | month =>
    obtain ⟨d, hd, h⟩ := bind_eq_ok.mp h
    cases h
    obtain ⟨hvalid, -, hday⟩ := dateOf_eq_ok_iff.mp hd
    have hmonth := month_spec hvalid
    simp only [beginOf, EpochDay.millisPerDay] at hday ⊢
    omega
  | year =>
    obtain ⟨d, hd, h⟩ := bind_eq_ok.mp h
    cases h
    obtain ⟨hvalid, -, hday⟩ := dateOf_eq_ok_iff.mp hd
    have hyear := year_spec hvalid
    simp only [beginOf, EpochDay.millisPerDay] at hday ⊢
    omega

/-- An instant is in no other bucket. -/
theorem eq_of_mem_bucket {t : Transform} {x : Int} {j k : Int}
    (hj : beginOf t j ≤ x ∧ x < beginOf t (j + 1)) (hk : beginOf t k ≤ x ∧ x < beginOf t (k + 1)) :
    j = k := by
  have hjk : j < k + 1 := (beginOf_strictMono t).lt_iff_lt.mp (by omega)
  have hkj : k < j + 1 := (beginOf_strictMono t).lt_iff_lt.mp (by omega)
  omega

/-! ## Starts of buckets -/

theorem toInt_ofInt_toInt (n : Int32) : (Int64.ofInt n.toInt).toInt = n.toInt := by
  have hlow := Int32.le_toInt n
  have hhigh := Int32.toInt_lt n
  exact Int64.toInt_ofInt_of_le (by omega) (by omega)

/-- Whether the start of a bucket is in a supported year, where that is asked. -/
def InCalendar (t : Transform) (k : Int) : Prop :=
  match t with
  | .month => (monthDay k).InRange
  | .year => (monthDay (k * 12)).InRange
  | _ => True

theorem monthStart?_eq_some {k x : Int} (h : monthStart? k = some x) :
    (monthDay k).InRange ∧ x = (monthDay k).dayNumber * EpochDay.millisPerDay := by
  obtain ⟨d, hd, rfl⟩ := Option.map_eq_some_iff.mp h
  unfold Date.make? at hd
  simp only at hd
  split at hd
  · rename_i hdate
    cases hd
    exact ⟨hdate.2, rfl⟩
  · cases hd

/-- The first instant of a supported month fits into 64 bits. -/
theorem toInt_monthStart {k : Int} (h : (monthDay k).InRange) :
    (Int64.ofInt ((monthDay k).dayNumber * EpochDay.millisPerDay)).toInt =
      (monthDay k).dayNumber * EpochDay.millisPerDay := by
  obtain ⟨hlow, hhigh⟩ := h.dayNumber_bounds (valid_monthDay k)
  unfold EpochDay.millisPerDay
  exact Int64.toInt_ofInt_of_le (by omega) (by omega)

/-- **A bucket starts where it begins.** -/
theorem start?_eq_some {t : Transform} {n : Int32} {begin : Int64}
    (h : start? t (Int64.ofInt n.toInt) = some begin) :
    begin.toInt = beginOf t n.toInt ∧ InCalendar t n.toInt := by
  cases t with
  | value =>
    cases h
    exact ⟨toInt_ofInt_toInt n, trivial⟩
  | hour =>
    have hbegin := toInt_of_int64? h
    rw [toInt_ofInt_toInt] at hbegin
    exact ⟨hbegin, trivial⟩
  | day =>
    have hbegin := toInt_of_int64? h
    rw [toInt_ofInt_toInt] at hbegin
    exact ⟨hbegin, trivial⟩
  | month =>
    obtain ⟨x, hx, rfl⟩ := Option.map_eq_some_iff.mp h
    rw [toInt_ofInt_toInt] at hx
    obtain ⟨hrange, rfl⟩ := monthStart?_eq_some hx
    exact ⟨toInt_monthStart hrange, hrange⟩
  | year =>
    obtain ⟨x, hx, rfl⟩ := Option.map_eq_some_iff.mp h
    rw [toInt_ofInt_toInt] at hx
    obtain ⟨hrange, rfl⟩ := monthStart?_eq_some hx
    exact ⟨toInt_monthStart hrange, hrange⟩

/-- The date of an instant is supported if it is not before one supported date and not after
another. -/
theorem exists_dateOf {first last : Int} {millis : Int64} (hfirst : (monthDay first).InRange)
    (hlast : (monthDay last).InRange)
    (hlow : (monthDay first).dayNumber * EpochDay.millisPerDay ≤ millis.toInt)
    (hhigh : millis.toInt ≤ (monthDay last).dayNumber * EpochDay.millisPerDay) :
    ∃ d, Bucket.dateOf millis = .ok d := by
  have hvalid := Date.valid_ofDayNumber (millis.toInt / EpochDay.millisPerDay)
  have hday := Date.dayNumber_ofDayNumber (millis.toInt / EpochDay.millisPerDay)
  generalize Date.ofDayNumber (millis.toInt / EpochDay.millisPerDay) = d at hvalid hday
  refine ⟨d, dateOf_eq_ok_iff.mpr ⟨hvalid, ?_, hday⟩⟩
  unfold EpochDay.millisPerDay at hlow hhigh hday
  have hyear := Date.year_le_of_dayNumber_le (valid_monthDay first) hvalid (by omega)
  have hyear' := Date.year_le_of_dayNumber_le hvalid (valid_monthDay last) (by omega)
  exact ⟨Int.le_trans hfirst.1 hyear, Int.le_trans hyear' hlast.2⟩

/-- An instant between the starts of two buckets is put into a bucket. -/
theorem exists_index {t : Transform} {a b : Int32} {millis : Int64}
    (ha : InCalendar t a.toInt) (hb : InCalendar t b.toInt)
    (hlow : beginOf t a.toInt ≤ millis.toInt) (hhigh : millis.toInt ≤ beginOf t b.toInt) :
    ∃ k, index t millis = .ok k := by
  cases t with
  | value => exact ⟨_, rfl⟩
  | hour => exact ⟨_, rfl⟩
  | day =>
    simp only [beginOf] at hlow hhigh
    have hfits : -2 ^ 31 ≤ millis.toInt / EpochDay.millisPerDay ∧
        millis.toInt / EpochDay.millisPerDay < 2 ^ 31 := by
      have hfirst := Int32.le_toInt a
      have hlast := Int32.toInt_lt b
      unfold EpochDay.millisPerDay at hlow hhigh ⊢
      omega
    obtain ⟨day, hday⟩ := EpochDay.exists_ofMillis_iff.mpr hfits
    exact ⟨_, bind_eq_ok.mpr ⟨day, hday, rfl⟩⟩
  | month =>
    obtain ⟨d, hd⟩ := exists_dateOf ha hb hlow hhigh
    simp only [index, hd]
    exact ⟨_, rfl⟩
  | year =>
    obtain ⟨d, hd⟩ := exists_dateOf ha hb hlow hhigh
    simp only [index, hd]
    exact ⟨_, rfl⟩

/-! ## Values and instants -/

/-- The columns whose buckets are numbered: instants under any transform of time, and days under one
that is not finer than a day. -/
def Numbered (t : Transform) : DataType → Prop
  | .timestamp | .timestampNtz => t.isTimeBased = true
  | .date => t.isTimeBased = true ∧ t ≠ .hour
  | _ => False

theorem Numbered.isTimeBased {t : Transform} {type : DataType} (h : Numbered t type) :
    t.isTimeBased = true := by
  cases type with
  | timestamp | timestampNtz => exact h
  | date => exact h.1
  | _ => cases h

theorem Numbered.isTemporal {t : Transform} {type : DataType} (h : Numbered t type) :
    type.isTemporal = true := by
  cases type with
  | timestamp | timestampNtz | date => rfl
  | _ => cases h

/-- The first instant of an epoch day. -/
theorem millis_eq_ok_iff {day : Int32} {millis : Int64} :
    EpochDay.millis day = .ok millis ↔ millis.toInt = day.toInt * EpochDay.millisPerDay := by
  unfold EpochDay.millis
  constructor
  · intro h
    split at h
    · rename_i n hn
      cases h
      exact toInt_of_int64? hn
    · cases h
  · intro h
    rw [← h, int64?_toInt]

/-- Every epoch day has a first instant: 64 bits hold the milliseconds of all days of 32 bits. -/
theorem exists_millis (day : Int32) : ∃ millis, EpochDay.millis day = .ok millis := by
  have hlow := Int32.le_toInt day
  have hhigh := Int32.toInt_lt day
  refine ⟨Int64.ofInt (day.toInt * EpochDay.millisPerDay), millis_eq_ok_iff.mpr ?_⟩
  unfold EpochDay.millisPerDay
  exact Int64.toInt_ofInt_of_le (by omega) (by omega)

/-- What stands for an instant under a transform. -/
theorem instant_eq_ok_iff {t : Transform} {type : DataType} {v : Value} {millis : Int64}
    (h : Numbered t type) :
    instant v type t = .ok millis ↔
      (type = .date ∧ ∃ day, v = .int day ∧
        millis.toInt = day.toInt * EpochDay.millisPerDay) ∨
      (type ≠ .date ∧ v = .long millis) := by
  unfold instant
  rw [if_pos h.isTemporal]
  cases type with
  | date =>
    cases v with
    | int day =>
      simp only [mapError_eq_ok, millis_eq_ok_iff]
      simp
    | _ => simp [Bucket.instant]
  | timestamp | timestampNtz =>
    cases v with
    | long n => simp [Bucket.instant]
    | _ => simp [Bucket.instant]
  | _ => cases h

variable {t : Transform} {type : DataType} {v w : Value} {x y : Int64} {n : Int32}

theorem exists_instant (h : Numbered t type) (hv : Canonical type v) (hnull : v.isNull = false) :
    ∃ x, instant v type t = .ok x := by
  simp only [instant_eq_ok_iff h]
  cases hv with
  | null => cases hnull
  | timestamp x => exact ⟨x, .inr ⟨nofun, rfl⟩⟩
  | timestampNtz x => exact ⟨x, .inr ⟨nofun, rfl⟩⟩
  | date day =>
    obtain ⟨x, hx⟩ := exists_millis day
    exact ⟨x, .inl ⟨rfl, day, rfl, millis_eq_ok_iff.mp hx⟩⟩
  | _ => cases h

theorem isNull_of_instant (h : Numbered t type) (hv : instant v type t = .ok x) :
    v.isNull = false := by
  rcases (instant_eq_ok_iff h).mp hv with ⟨-, day, rfl, -⟩ | ⟨-, rfl⟩
  · rfl
  · rfl

/-- **Values are in the order of their instants.** -/
theorem notAfter_iff (h : Numbered t type) (hv : instant v type t = .ok x)
    (hw : instant w type t = .ok y) : v.NotAfter w ↔ x.toInt ≤ y.toInt := by
  rcases (instant_eq_ok_iff h).mp hv with ⟨htype, day, rfl, hx⟩ | ⟨htype, rfl⟩
  · rcases (instant_eq_ok_iff h).mp hw with ⟨-, day', rfl, hy⟩ | ⟨hne, -⟩
    · unfold EpochDay.millisPerDay at hx hy
      simp only [Value.NotAfter, Int32.le_iff_toInt_le]
      omega
    · exact absurd htype hne
  · rcases (instant_eq_ok_iff h).mp hw with ⟨heq, -⟩ | ⟨-, rfl⟩
    · exact absurd heq htype
    · exact Int64.le_iff_toInt_le

theorem before_iff (h : Numbered t type) (hv : instant v type t = .ok x)
    (hw : instant w type t = .ok y) : v.Before w ↔ x.toInt < y.toInt := by
  rcases (instant_eq_ok_iff h).mp hv with ⟨htype, day, rfl, hx⟩ | ⟨htype, rfl⟩
  · rcases (instant_eq_ok_iff h).mp hw with ⟨-, day', rfl, hy⟩ | ⟨hne, -⟩
    · unfold EpochDay.millisPerDay at hx hy
      simp only [Value.Before, Int32.lt_iff_toInt_lt]
      omega
    · exact absurd htype hne
  · rcases (instant_eq_ok_iff h).mp hw with ⟨heq, -⟩ | ⟨-, rfl⟩
    · exact absurd heq htype
    · exact Int64.lt_iff_toInt_lt

/-- A bucket that is not finer than a day begins with a day. -/
theorem beginOf_emod (ht : t.isTimeBased = true) (hhour : t ≠ .hour) (k : Int) :
    beginOf t k % EpochDay.millisPerDay = 0 := by
  cases t with
  | value => cases ht
  | hour => exact absurd rfl hhour
  | day | month | year => exact Int.mul_emod_left _ _

/-- **The start of a bucket stands for the instant at which the bucket begins.** -/
theorem toValue_int (h : Numbered t type) (hv : toValue (.int n) type t = .ok v) :
    ∃ x, instant v type t = .ok x ∧ x.toInt = beginOf t n.toInt ∧ InCalendar t n.toInt := by
  unfold toValue at hv
  rw [if_neg (by exact Bool.false_ne_true), if_pos h.isTimeBased, if_pos h.isTemporal] at hv
  simp only [number, ok_bind] at hv
  split at hv
  · cases hv
  · rename_i x hx
    obtain ⟨hbegin, hcalendar⟩ := start?_eq_some hx
    refine ⟨x, (instant_eq_ok_iff h).mpr ?_, hbegin, hcalendar⟩
    have hcanonical := mapError_eq_ok.mp hv
    cases type with
    | date =>
      obtain ⟨day, hday, hv⟩ := bind_eq_ok.mp hcanonical
      cases hv
      have hwhole := beginOf_emod h.1 h.2 n.toInt
      refine .inl ⟨rfl, day, rfl, ?_⟩
      have hfloor := EpochDay.ofMillis_eq_ok.mp hday
      rw [← hbegin] at hwhole
      unfold EpochDay.millisPerDay at hfloor hwhole ⊢
      omega
    | timestamp | timestampNtz =>
      cases hcanonical
      exact .inr ⟨nofun, rfl⟩
    | _ => cases h

/-- The ordinal of a value is the number of the bucket that its instant is put into. -/
theorem ofValue_eq_ok_iff (h : Numbered t type) (hv : instant v type t = .ok x) :
    ofValue v type t = .ok (.int n) ↔ index t x = .ok n.toInt := by
  unfold ofValue
  rw [if_neg (by rw [isNull_of_instant h hv]; exact Bool.false_ne_true),
    if_pos h.isTimeBased, hv, ok_bind, bind_eq_ok]
  constructor
  · rintro ⟨k, hk, hstored⟩
    unfold stored at hstored
    split at hstored
    · rename_i m hm
      cases hstored
      rw [hk, toInt_of_int32? hm]
    · cases hstored
  · intro hk
    refine ⟨n.toInt, hk, ?_⟩
    unfold stored
    rw [int32?_toInt]

/-! ## Ordinals -/

/-- A value between the starts of two buckets has an ordinal exactly if it is in that bucket. -/
theorem ofValue_iff_mem_bucket (h : Numbered t type) {a b : Int32}
    (ha : InCalendar t a.toInt) (hb : InCalendar t b.toInt) (hv : instant v type t = .ok x)
    (hlow : beginOf t a.toInt ≤ x.toInt) (hhigh : x.toInt ≤ beginOf t b.toInt) :
    ofValue v type t = .ok (.int n) ↔
      beginOf t n.toInt ≤ x.toInt ∧ x.toInt < beginOf t (n.toInt + 1) := by
  rw [ofValue_eq_ok_iff h hv]
  constructor
  · exact index_spec
  · intro hn
    obtain ⟨k, hk⟩ := exists_index ha hb hlow hhigh
    rw [hk, eq_of_mem_bucket (index_spec hk) hn]

/-- The start of a bucket has the number of the bucket. -/
theorem ofValue_toValue (h : Numbered t type) (hv : toValue (.int n) type t = .ok v) :
    ofValue v type t = .ok (.int n) := by
  obtain ⟨x, hx, hbegin, hcalendar⟩ := toValue_int h hv
  have hself : beginOf t n.toInt ≤ x.toInt := Int.le_of_eq hbegin.symm
  have hnext := beginOf_strictMono t (show n.toInt < n.toInt + 1 by omega)
  exact (ofValue_iff_mem_bucket h hcalendar hcalendar hx hself (Int.le_of_eq hbegin)).mpr
    ⟨hself, hbegin ▸ hnext⟩

/-- Ordinals are in the order of the values. -/
theorem ofValue_mono (h : Numbered t type) (hv : Canonical type v) (hw : Canonical type w)
    {m n : Int32} (hvw : v.NotAfter w) (hm : ofValue v type t = .ok (.int m))
    (hn : ofValue w type t = .ok (.int n)) : m ≤ n := by
  have hnull : ∀ {u : Value} {k : Int32}, ofValue u type t = .ok (.int k) → u.isNull = false := by
    intro u k hu
    cases u with
    | null => cases hu
    | _ => rfl
  obtain ⟨x, hx⟩ := exists_instant h hv (hnull hm)
  obtain ⟨y, hy⟩ := exists_instant h hw (hnull hn)
  have hxy := (notAfter_iff h hx hy).mp hvw
  have hlow := index_spec ((ofValue_eq_ok_iff h hx).mp hm)
  have hhigh := index_spec ((ofValue_eq_ok_iff h hy).mp hn)
  have hlt : m.toInt < n.toInt + 1 := (beginOf_strictMono t).lt_iff_lt.mp (by omega)
  rw [Int32.le_iff_toInt_le]
  omega

/-- **Ordinals number half-open buckets**, before 1970 and after: a value has an ordinal exactly if
it is not before the start of that bucket and before the start of the next, wherever both have a
start. Ordinals are in the order of the values; and the start of a bucket has the number of the
bucket, so ordinals and starts of buckets are inverse to each other. -/
theorem ordinal_numbers_bucket (t : Transform) (type : DataType) (h : Numbered t type) :
    (∀ (v start next : Value) (n n' : Int32), Canonical type v → v.isNull = false →
      n'.toInt = n.toInt + 1 → toValue (.int n) type t = .ok start →
      toValue (.int n') type t = .ok next →
      (ofValue v type t = .ok (.int n) ↔ start.NotAfter v ∧ v.Before next)) ∧
    (∀ (v w : Value) (m n : Int32), Canonical type v → Canonical type w → v.NotAfter w →
      ofValue v type t = .ok (.int m) → ofValue w type t = .ok (.int n) → m ≤ n) ∧
    ∀ (start : Value) (n : Int32), toValue (.int n) type t = .ok start →
      ofValue start type t = .ok (.int n) ∧
        (ofValue start type t >>= fun ordinal => toValue ordinal type t) = .ok start := by
  refine ⟨?_, fun v w m n hv hw hvw hm hn => ofValue_mono h hv hw hvw hm hn, ?_⟩
  · intro v start next n n' hv hnull hsucc hstart hnext
    obtain ⟨x, hx⟩ := exists_instant h hv hnull
    obtain ⟨a, ha, hbegin, hcalendar⟩ := toValue_int h hstart
    obtain ⟨b, hb, hend, hcalendar'⟩ := toValue_int h hnext
    rw [notAfter_iff h ha hx, before_iff h hx hb, hbegin, hend, hsucc]
    constructor
    · intro hn
      exact index_spec ((ofValue_eq_ok_iff h hx).mp hn)
    · intro hn
      rw [ofValue_iff_mem_bucket h hcalendar hcalendar' hx hn.1
        (hsucc ▸ Int.le_of_lt hn.2)]
      exact hn
  · intro start n hstart
    have hn := ofValue_toValue h hstart
    refine ⟨hn, ?_⟩
    rw [hn, ok_bind, hstart]

/-- The last instant of February in the leap year 1968, and the last day of it. -/
theorem ordinal_numbers_bucket_before_1970 :
    toValue (.int (-23)) .timestamp .month = .ok (.long (-60480000000)) ∧
      toValue (.int (-22)) .timestamp .month = .ok (.long (-57974400000)) ∧
      ofValue (.long (-57974400001)) .timestamp .month = .ok (.int (-23)) ∧
      ofValue (.int (-672)) .date .month = .ok (.int (-23)) := by
  have hstart : toValue (.int (-23)) .timestamp .month = .ok (.long (-60480000000)) := by
    decide +kernel
  have hnext : toValue (.int (-22)) .timestamp .month = .ok (.long (-57974400000)) := by
    decide +kernel
  have hday : toValue (.int (-23)) .date .month = .ok (.int (-700)) := by decide +kernel
  have hday' : toValue (.int (-22)) .date .month = .ok (.int (-671)) := by decide +kernel
  have hlow : (Value.long (-60480000000)).NotAfter (.long (-57974400001)) := by
    show (-60480000000 : Int64) ≤ -57974400001
    decide
  have hhigh : (Value.long (-57974400001)).Before (.long (-57974400000)) := by
    show (-57974400001 : Int64) < -57974400000
    decide
  have hlow' : (Value.int (-700)).NotAfter (.int (-672)) := by
    show (-700 : Int32) ≤ -672
    decide
  have hhigh' : (Value.int (-672)).Before (.int (-671)) := by
    show (-672 : Int32) < -671
    decide
  have hsucc : (-22 : Int32).toInt = (-23 : Int32).toInt + 1 := by decide
  exact ⟨hstart, hnext,
    ((ordinal_numbers_bucket .month .timestamp rfl).1 _ _ _ _ _ (.timestamp _) rfl hsucc hstart
      hnext).mpr ⟨hlow, hhigh⟩,
    ((ordinal_numbers_bucket .month .date ⟨rfl, nofun⟩).1 _ _ _ _ _ (.date _) rfl hsucc hday
      hday').mpr ⟨hlow', hhigh'⟩⟩

end Ordinal

end Lakehouse
