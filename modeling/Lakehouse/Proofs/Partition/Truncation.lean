import Lakehouse.Proofs.Format.Ordinal
import Lakehouse.Proofs.Partition.Bucket
import Mathlib

/-!
# Truncation is a nested floor

The start of a bucket is the last of all bucket starts that is not after the instant. Everything
else about truncation follows from this, and from the order of the transforms: a coarser transform
begins its buckets where a finer one does.

* `Bucket.Starts`: where the buckets of a transform begin; `Bucket.starts_subset`: a coarser
  transform has fewer of these points.
* `Bucket.start_eq_ok_iff`: an instant is truncated to the last of them that is not after it,
  wherever the calendar is not left.
* `Bucket.start_of_between`: from the start of a bucket up to an instant that is truncated to it,
  everything is.
* `Bucket.start_nested_floor`: truncation lies below, is idempotent, monotone and nested, and fails
  by hours and days only where the start leaves 64 bits.

About `truncate_millis`, which is modelled in `Partition.Bucket`.
-/

namespace Lakehouse

/-- The first transform has the finer buckets: instants, hours, days, months, years. -/
inductive Transform.Finer : Transform → Transform → Prop
  | hour : Finer .value .hour
  | day : Finer .hour .day
  | month : Finer .day .month
  | year : Finer .month .year
  | trans {r s t : Transform} : Finer r s → Finer s t → Finer r t

open Lakehouse.Ordinal (beginOf beginOf_strictMono dateOf_eq_ok_iff exists_dateOf_iff)

namespace Bucket

variable {s t : Transform} {millis begin : Int64}

/-! ## Where buckets begin -/

/-- Where the buckets of a transform begin, in milliseconds. -/
def Starts (t : Transform) : Set ℤ := Set.range (beginOf t)

/-- **A coarser transform begins its buckets where a finer one does.** -/
theorem starts_subset (h : s.Finer t) : Starts t ⊆ Starts s := by
  induction h with
  | hour => exact fun x _ => ⟨x, rfl⟩
  | day =>
    rintro _ ⟨k, rfl⟩
    refine ⟨k * 24, ?_⟩
    simp only [beginOf, millisPerHour, EpochDay.millisPerDay]
    omega
  | month =>
    rintro _ ⟨k, rfl⟩
    exact ⟨(Ordinal.monthDay k).dayNumber, rfl⟩
  | year =>
    rintro _ ⟨k, rfl⟩
    exact ⟨k * 12, rfl⟩
  | trans _ _ hfine hcoarse => exact hcoarse.trans hfine

/-- The start of the bucket that an instant is in is the last one not after it. -/
theorem isGreatest_beginOf {k x : ℤ} (hlow : beginOf t k ≤ x) (hhigh : x < beginOf t (k + 1)) :
    IsGreatest (Starts t ∩ Set.Iic x) (beginOf t k) := by
  refine ⟨⟨⟨k, rfl⟩, hlow⟩, ?_⟩
  rintro _ ⟨⟨j, rfl⟩, hj⟩
  have hjk : j < k + 1 := (beginOf_strictMono t).lt_iff_lt.mp (lt_of_le_of_lt hj hhigh)
  exact (beginOf_strictMono t).monotone (Int.lt_add_one_iff.mp hjk)

theorem isGreatest_hour (x : ℤ) :
    IsGreatest (Starts .hour ∩ Set.Iic x) (x / millisPerHour * millisPerHour) := by
  refine isGreatest_beginOf (k := x / millisPerHour) ?_ ?_ <;>
    simp only [beginOf, millisPerHour] <;> omega

theorem isGreatest_day (x : ℤ) :
    IsGreatest (Starts .day ∩ Set.Iic x) (x / EpochDay.millisPerDay * EpochDay.millisPerDay) := by
  refine isGreatest_beginOf (k := x / EpochDay.millisPerDay) ?_ ?_ <;>
    simp only [beginOf, EpochDay.millisPerDay] <;> omega

/-- The month of an instant begins on the first day of the instant's date. -/
theorem isGreatest_month {d : Date} (h : dateOf millis = .ok d) :
    IsGreatest (Starts .month ∩ Set.Iic millis.toInt) (monthStart d.year d.month) := by
  obtain ⟨hvalid, -, hday⟩ := dateOf_eq_ok_iff.mp h
  have hmonth := Ordinal.month_spec hvalid
  have hbegin : beginOf .month (Ordinal.monthsSinceEpoch d) = monthStart d.year d.month := by
    simp only [beginOf, Ordinal.monthDay_monthsSinceEpoch hvalid]
    rfl
  rw [← hbegin]
  unfold EpochDay.millisPerDay at hday
  refine isGreatest_beginOf ?_ ?_ <;> simp only [beginOf, EpochDay.millisPerDay] <;> omega

/-- The year of an instant begins on the first of January of the instant's date. -/
theorem isGreatest_year {d : Date} (h : dateOf millis = .ok d) :
    IsGreatest (Starts .year ∩ Set.Iic millis.toInt) (monthStart d.year 1) := by
  obtain ⟨hvalid, -, hday⟩ := dateOf_eq_ok_iff.mp h
  have hyear := Ordinal.year_spec hvalid
  have hbegin : beginOf .year (d.year - 1970) = monthStart d.year 1 := by
    have hsame : 1970 + (d.year - 1970) = d.year := by omega
    simp only [beginOf, Ordinal.monthDay_twelve, hsame]
    rfl
  rw [← hbegin]
  unfold EpochDay.millisPerDay at hday
  refine isGreatest_beginOf ?_ ?_ <;> simp only [beginOf, EpochDay.millisPerDay] <;> omega

/-! ## Truncating -/

/-- Whether the calendar has the date of an instant, where that is asked. -/
def Supported (t : Transform) (millis : Int64) : Prop :=
  match t with
  | .month | .year => ∃ d, dateOf millis = .ok d
  | _ => True

/-- The first instant of a supported month is counted exactly. -/
theorem toInt_ofInt_monthStart {year : ℤ} {month : ℕ} (h : (monthBegin year month).Valid) :
    (Int64.ofInt (monthStart year month)).toInt = monthStart year month := by
  rw [← millis_monthBegin, h.toInt_ofInt_millis]

/-- **An instant is truncated to the last bucket start that is not after it.** -/
theorem start_isGreatest (h : start t millis = .ok begin) :
    Supported t millis ∧ IsGreatest (Starts t ∩ Set.Iic millis.toInt) begin.toInt := by
  cases t with
  | value =>
    cases h
    exact ⟨trivial, ⟨⟨_, rfl⟩, Set.self_mem_Iic⟩, fun _ hx => hx.2⟩
  | hour => exact ⟨trivial, floorTo_eq_ok h ▸ isGreatest_hour _⟩
  | day => exact ⟨trivial, floorTo_eq_ok h ▸ isGreatest_day _⟩
  | month =>
    obtain ⟨d, hd, hbegin⟩ := bind_eq_ok.mp h
    cases hbegin
    obtain ⟨hvalid, hrange⟩ := dateOf_eq_ok hd
    rw [toInt_ofInt_monthStart (valid_monthBegin hvalid hrange)]
    exact ⟨⟨d, hd⟩, isGreatest_month hd⟩
  | year =>
    obtain ⟨d, hd, hbegin⟩ := bind_eq_ok.mp h
    cases hbegin
    rw [toInt_ofInt_monthStart (valid_yearBegin (dateOf_eq_ok hd).2)]
    exact ⟨⟨d, hd⟩, isGreatest_year hd⟩

theorem exists_start_of_supported (ht : t = .month ∨ t = .year) (h : Supported t millis) :
    ∃ begin, start t millis = .ok begin := by
  rcases ht with rfl | rfl
  · obtain ⟨d, hd⟩ := h
    exact ⟨_, bind_eq_ok.mpr ⟨d, hd, rfl⟩⟩
  · obtain ⟨d, hd⟩ := h
    exact ⟨_, bind_eq_ok.mpr ⟨d, hd, rfl⟩⟩

theorem floorTo_eq_ok_iff {unit : ℤ} :
    floorTo t unit millis = .ok begin ↔ begin.toInt = millis.toInt / unit * unit := by
  refine ⟨floorTo_eq_ok, fun h => ?_⟩
  unfold floorTo
  rw [← h, int64?_toInt]

/-- **Truncation finds the last bucket start that is not after an instant**, wherever the calendar
is not left. -/
theorem start_eq_ok_iff :
    start t millis = .ok begin ↔
      Supported t millis ∧ IsGreatest (Starts t ∩ Set.Iic millis.toInt) begin.toInt := by
  refine ⟨start_isGreatest, fun ⟨hsupported, hgreatest⟩ => ?_⟩
  have hfound : ∀ ht : t = .month ∨ t = .year, start t millis = .ok begin := by
    intro ht
    obtain ⟨found, hstart⟩ := exists_start_of_supported ht hsupported
    rw [hstart, Int64.toInt_inj.mp ((start_isGreatest hstart).2.unique hgreatest)]
  cases t with
  | value =>
    have hself : IsGreatest (Starts .value ∩ Set.Iic millis.toInt) millis.toInt :=
      (start_isGreatest (t := .value) rfl).2
    exact congrArg Except.ok (Int64.toInt_inj.mp (hself.unique hgreatest))
  | hour => exact floorTo_eq_ok_iff.mpr (hgreatest.unique (isGreatest_hour _))
  | day => exact floorTo_eq_ok_iff.mpr (hgreatest.unique (isGreatest_day _))
  | month => exact hfound (.inl rfl)
  | year => exact hfound (.inr rfl)

/-! ## The calendar has no gaps -/

/-- An instant between two supported ones is supported. -/
theorem exists_dateOf_of_between {low high : Int64} {d e : Date} (hd : dateOf low = .ok d)
    (he : dateOf high = .ok e) (hlow : low ≤ millis) (hhigh : millis ≤ high) :
    ∃ c, dateOf millis = .ok c := by
  rw [Int64.le_iff_toInt_le] at hlow hhigh
  exact exists_dateOf_iff.mpr ⟨(exists_dateOf_iff.mp ⟨d, hd⟩).1.trans hlow,
    hhigh.trans_lt (exists_dateOf_iff.mp ⟨e, he⟩).2⟩

/-- The start of a bucket is supported. -/
theorem supported_start (h : start t millis = .ok begin) : Supported t begin := by
  cases t with
  | value | hour | day => trivial
  | month =>
    obtain ⟨d, hd, hbegin⟩ := bind_eq_ok.mp h
    cases hbegin
    obtain ⟨hvalid, hrange⟩ := dateOf_eq_ok hd
    exact ⟨_, dateOf_eq (ofMillis?_monthStart (valid_monthBegin hvalid hrange))⟩
  | year =>
    obtain ⟨d, hd, hbegin⟩ := bind_eq_ok.mp h
    cases hbegin
    exact ⟨_, dateOf_eq (ofMillis?_monthStart (valid_yearBegin (dateOf_eq_ok hd).2))⟩

theorem Supported.between {low high : Int64} (hl : Supported t low) (hh : Supported t high)
    (hlow : low ≤ millis) (hhigh : millis ≤ high) : Supported t millis := by
  cases t with
  | value | hour | day => trivial
  | month | year =>
    obtain ⟨d, hd⟩ := hl
    obtain ⟨e, he⟩ := hh
    exact exists_dateOf_of_between hd he hlow hhigh

/-- **From the start of a bucket up to an instant that is truncated to it, everything is.** -/
theorem start_of_between {x : Int64} (h : start t millis = .ok begin) (hlow : begin ≤ x)
    (hhigh : x ≤ millis) : start t x = .ok begin := by
  obtain ⟨hsupported, ⟨hstart, -⟩, hlast⟩ := start_isGreatest h
  refine start_eq_ok_iff.mpr ⟨(supported_start h).between hsupported hlow hhigh,
    ⟨hstart, Int64.le_iff_toInt_le.mp hlow⟩, fun y ⟨hy, hyx⟩ => hlast ⟨hy, ?_⟩⟩
  exact le_trans hyx (Int64.le_iff_toInt_le.mp hhigh)

theorem start_le (h : start t millis = .ok begin) : begin ≤ millis :=
  Int64.le_iff_toInt_le.mpr (start_isGreatest h).2.1.2

/-! ## Where truncation fails -/

/-- Hours and days start too early for 64 bits, or are found. -/
theorem floorTo_eq_error_iff {unit : ℤ} (hunit : 0 < unit) :
    (∃ fault, floorTo t unit millis = .error fault) ↔ millis.toInt / unit * unit < -2 ^ 63 := by
  have hle : millis.toInt / unit * unit ≤ millis.toInt := Int.ediv_mul_le _ hunit.ne'
  have hhigh := millis.toInt_lt
  unfold floorTo int64?
  split
  · rename_i n hn
    split at hn
    · exact iff_of_false nofun (by omega)
    · cases hn
  · rename_i hn
    split at hn
    · cases hn
    · exact iff_of_true ⟨_, rfl⟩ (by omega)

theorem exists_floorTo {unit : ℤ} (hunit : 0 < unit)
    (h : -2 ^ 63 ≤ millis.toInt / unit * unit) : ∃ begin, floorTo t unit millis = .ok begin := by
  cases hfloor : floorTo t unit millis with
  | ok begin => exact ⟨begin, rfl⟩
  | error fault => exact absurd ((floorTo_eq_error_iff hunit).mp ⟨fault, hfloor⟩) (by omega)

/-- **What is truncated by a transform is truncated by every finer one.** -/
theorem exists_start_of_finer (hst : s.Finer t) (h : start t millis = .ok begin) :
    ∃ fine, start s millis = .ok fine := by
  induction hst generalizing begin with
  | hour => exact ⟨millis, rfl⟩
  | day =>
    have hbegin := floorTo_eq_ok h
    have hlow := begin.le_toInt
    refine exists_floorTo (by decide) ?_
    unfold EpochDay.millisPerDay at hbegin
    unfold millisPerHour
    omega
  | month =>
    obtain ⟨d, hd⟩ := (start_isGreatest h).1
    obtain ⟨hvalid, hrange, hday⟩ := dateOf_eq_ok_iff.mp hd
    obtain ⟨hlow, -⟩ := hrange.dayNumber_bounds hvalid
    refine exists_floorTo (by decide) ?_
    rw [← hday]
    unfold EpochDay.millisPerDay
    omega
  | year => exact exists_start_of_supported (.inl rfl) (start_isGreatest h).1
  | trans _ _ hfine hcoarse =>
    obtain ⟨middle, hmiddle⟩ := hcoarse h
    exact hfine hmiddle

/-- **Truncation is a nested floor.** An instant is truncated to the exact start of its bucket, the
last one not after it; so the start is not after the instant, stays where it is, and follows the
order of the instants. Every finer transform truncates the instant too, and from there leads to the
same start. By hours and days truncation fails exactly where the start of the bucket lies below
64 bits. -/
theorem start_nested_floor (t : Transform) (millis : Int64) :
    (∀ begin, start t millis = .ok begin →
      IsGreatest (Starts t ∩ Set.Iic millis.toInt) begin.toInt ∧
      begin ≤ millis ∧ start t begin = .ok begin ∧
      (∀ later begin', millis ≤ later → start t later = .ok begin' → begin ≤ begin') ∧
      ∀ s : Transform, s.Finer t → ∃ fine, start s millis = .ok fine ∧
        start t fine = .ok begin) ∧
    (t = .hour ∨ t = .day → ((∃ fault, start t millis = .error fault) ↔
      ∃ x, IsGreatest (Starts t ∩ Set.Iic millis.toInt) x ∧ x < -2 ^ 63)) := by
  refine ⟨fun begin h => ⟨(start_isGreatest h).2, start_le h, ?_, ?_, ?_⟩, ?_⟩
  · exact start_of_between h (Int64.le_refl begin) (start_le h)
  · intro later begin' hle h'
    have hsubset : Starts t ∩ Set.Iic millis.toInt ⊆ Starts t ∩ Set.Iic later.toInt :=
      Set.inter_subset_inter_right _ (Set.Iic_subset_Iic.mpr (Int64.le_iff_toInt_le.mp hle))
    exact Int64.le_iff_toInt_le.mpr ((start_isGreatest h).2.mono (start_isGreatest h').2 hsubset)
  · intro s hst
    obtain ⟨fine, hfine⟩ := exists_start_of_finer hst h
    refine ⟨fine, hfine, start_of_between h ?_ (start_le hfine)⟩
    obtain ⟨hstart, hle⟩ := (start_isGreatest h).2.1
    exact Int64.le_iff_toInt_le.mpr ((start_isGreatest hfine).2.2 ⟨starts_subset hst hstart, hle⟩)
  · rintro (rfl | rfl)
    · refine (floorTo_eq_error_iff (by decide)).trans ⟨fun h => ⟨_, isGreatest_hour _, h⟩, ?_⟩
      rintro ⟨x, hx, hbelow⟩
      rwa [(isGreatest_hour _).unique hx]
    · refine (floorTo_eq_error_iff (by decide)).trans ⟨fun h => ⟨_, isGreatest_day _, h⟩, ?_⟩
      rintro ⟨x, hx, hbelow⟩
      rwa [(isGreatest_day _).unique hx]

/-- The last millisecond of 1969 leads to the first of January over its month and over its hour; the
first instant of all lies in a day that begins below 64 bits. -/
theorem start_nested_floor_at_limits :
    start .year (-1) = .ok (-31536000000) ∧
      (∃ fine, start .month (-1) = .ok fine ∧ start .year fine = .ok (-31536000000)) ∧
      (∃ fine, start .hour (-1) = .ok fine ∧ start .year fine = .ok (-31536000000)) ∧
      ∃ fault, start .day Int64.minValue = .error fault := by
  have hstart : start .year (-1) = .ok (-31536000000) := by decide +kernel
  obtain ⟨-, -, -, -, hfine⟩ := (start_nested_floor .year (-1)).1 _ hstart
  refine ⟨hstart, hfine .month .year, hfine .hour (.trans .day (.trans .month .year)), ?_⟩
  exact ((start_nested_floor .day Int64.minValue).2 (.inr rfl)).mpr
    ⟨_, isGreatest_day _, by decide⟩

end Bucket

end Lakehouse
