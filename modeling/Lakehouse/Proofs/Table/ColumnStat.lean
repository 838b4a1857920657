import Lakehouse.Proofs.Format.Statistic
import Lakehouse.Table.ColumnStat

/-!
# Bounds of an instant column after a format has stored them

Both bounds of a column are rounded the same way. Rounding down is safe for the least value and
loses rows at the greatest one, so whether the bounds that come back enclose the old ones is decided
by the greatest value alone.

* `ColumnStat.convert_eq_ok`: a statistic is converted when both its bounds are.
* `ColumnStat.fromNative_toNative_instants`: what both bounds of an instant column come back as.
* `ColumnStat.stored_bounds_enclose_iff`: Hudi and Iceberg keep the range; Delta keeps it exactly
  when the greatest value lies on a whole second.

About `ColumnStat::to_native` and `ColumnStat::from_native`, which are modelled in
`Table.ColumnStat`.
-/

namespace Lakehouse

/-- **A bound of an instant column comes back from every format** as what the format keeps of
it. -/
theorem TableFormat.statFromNative_instant {f : TableFormat} {field : Schema} {instant : Int64}
    {native : Value} (htype : field.type.isTimestamp = true)
    (h : f.statToNative (.long instant) field = .ok native) :
    ∃ back, f.statFromNative native field = .ok (.long back) ∧
      back.toInt = f.keptInstant field.precision instant.toInt := by
  rw [statToNative_eq_writeInstant htype] at h
  obtain ⟨back, hread, hback⟩ := @readInstant_writeInstant f field.precision field.type instant
    native h
  have hpresent : native.isNull = false := by
    cases native with
    | null => cases f <;> cases hread
    | _ => rfl
  exact ⟨back, (statFromNative_eq_readInstant htype hpresent).trans hread, hback⟩

namespace ColumnStat

variable {f : TableFormat} {schema field : Schema} {s native : ColumnStat} {low high : Int64}

/-- A statistic is converted when its column exists and both its bounds are converted. -/
theorem convert_eq_ok {bound : Value → Schema → Except Fault Value} :
    s.convert schema bound = .ok native ↔ ∃ field min max, s.column schema = .ok field ∧
      bound s.min field = .ok min ∧ bound s.max field = .ok max ∧ native = { s with min, max } := by
  unfold convert
  constructor
  · intro h
    obtain ⟨field, hfield, h⟩ := bind_eq_ok.mp h
    obtain ⟨min, hmin, h⟩ := bind_eq_ok.mp h
    obtain ⟨max, hmax, h⟩ := bind_eq_ok.mp h
    exact ⟨field, min, max, hfield, hmin, hmax, (Except.ok.inj h).symm⟩
  · rintro ⟨field, min, max, hfield, hmin, hmax, rfl⟩
    rw [hfield, ok_bind, hmin, ok_bind, hmax]
    rfl

/-- **Both bounds of an instant column come back** as what the format keeps of them, and nothing
else of the statistic changes. -/
theorem fromNative_toNative_instants (hcolumn : s.column schema = .ok field)
    (htype : field.type.isTimestamp = true) (hmin : s.min = .long low) (hmax : s.max = .long high)
    (h : s.toNative f schema = .ok native) :
    ∃ low' high' : Int64,
      native.fromNative f schema = .ok { s with min := .long low', max := .long high' } ∧
        low'.toInt = f.keptInstant field.precision low.toInt ∧
        high'.toInt = f.keptInstant field.precision high.toInt := by
  obtain ⟨field', min, max, hfield', hmin', hmax', rfl⟩ := convert_eq_ok.mp h
  cases hcolumn.symm.trans hfield'
  rw [hmin] at hmin'
  rw [hmax] at hmax'
  obtain ⟨low', hlow, hlowValue⟩ := TableFormat.statFromNative_instant htype hmin'
  obtain ⟨high', hhigh, hhighValue⟩ := TableFormat.statFromNative_instant htype hmax'
  exact ⟨low', high', convert_eq_ok.mpr ⟨field, _, _, hcolumn, hlow, hhigh, rfl⟩, hlowValue,
    hhighValue⟩

theorem perSecond_pos (p : Precision) : 0 < p.perSecond := by cases p <;> decide

/-- **The bounds that come back enclose the old ones** as far as the least value goes; at the
greatest value Hudi and Iceberg keep the range, and Delta keeps it exactly when that value lies on a
whole second. What Delta loses is less than a second. -/
theorem stored_bounds_enclose_iff (hcolumn : s.column schema = .ok field)
    (htype : field.type.isTimestamp = true) (hmin : s.min = .long low) (hmax : s.max = .long high)
    (h : s.toNative f schema = .ok native) :
    ∃ low' high' : Int64,
      native.fromNative f schema = .ok { s with min := .long low', max := .long high' } ∧
        low'.toInt ≤ low.toInt ∧
        (high.toInt ≤ high'.toInt ↔
          (f = .delta → high.toInt % field.precision.perSecond = 0)) ∧
        high.toInt < high'.toInt + field.precision.perSecond := by
  obtain ⟨low', high', hback, hlow, hhigh⟩ := fromNative_toNative_instants hcolumn htype hmin hmax h
  refine ⟨low', high', hback, ?_⟩
  have hunit := perSecond_pos field.precision
  cases f with
  | hudi | iceberg =>
    simp only [TableFormat.keptInstant] at hlow hhigh
    refine ⟨by omega, ?_, by omega⟩
    constructor
    · intro _ hdelta
      cases hdelta
    · intro _
      omega
  | delta =>
    simp only [TableFormat.keptInstant] at hlow hhigh
    have hfloor := Int.mul_ediv_add_emod high.toInt field.precision.perSecond
    have hrest := Int.emod_nonneg high.toInt hunit.ne'
    have hless := Int.emod_lt_of_pos high.toInt hunit
    rw [Int.mul_comm] at hfloor
    refine ⟨?_, ?_, by omega⟩
    · rw [hlow]
      exact Int.ediv_mul_le _ hunit.ne'
    · constructor
      · intro hle _
        omega
      · intro hwhole
        have := hwhole rfl
        omega

/-- A table with one instant column in milliseconds. -/
def visits : Schema :=
  ⟨"visits", .record, none, false,
    [⟨"at", none, ⟨"at", .timestamp, none, false, [],
      ⟨some (.precision .millis), none, none, none, none⟩⟩⟩],
    none, none, none, none, none⟩

/-- A greatest value on a whole second is kept by Delta, whatever the least value is. -/
theorem stored_bounds_enclose_iff_whole_second :
    let s : ColumnStat := ⟨"at", .long (-1500), .long 2000, 0, 2⟩
    ∃ native, s.toNative .delta visits = .ok native ∧
      ∃ low' high' : Int64,
        native.fromNative .delta visits = .ok { s with min := .long low', max := .long high' } ∧
          low'.toInt ≤ -1500 ∧ 2000 ≤ high'.toInt := by
  intro s
  have hcolumn : s.column visits = .ok ⟨"at", .timestamp, none, false, [],
      ⟨some (.precision .millis), none, none, none, none⟩⟩ := by decide +kernel
  have hnative : s.toNative .delta visits = .ok
      { s with min := .string "1969-12-31 23:59:58", max := .string "1970-01-01 00:00:02" } := by
    decide +kernel
  obtain ⟨low', high', hback, hlow, hhigh, -⟩ :=
    stored_bounds_enclose_iff hcolumn rfl rfl rfl hnative
  exact ⟨_, hnative, low', high', hback, hlow, hhigh.mpr fun _ => by decide⟩

/-- **Delta cuts off the rows behind the last whole second**: a greatest value of one and a half
seconds comes back as one second. -/
theorem stored_maximum_shrinks :
    let s : ColumnStat := ⟨"at", .long 1000, .long 1500, 0, 2⟩
    ∃ native, s.toNative .delta visits = .ok native ∧
      native.fromNative .delta visits = .ok { s with max := .long 1000 } ∧
      (1000 : Int64).toInt < (1500 : Int64).toInt := by
  intro s
  refine ⟨{ s with min := .string "1970-01-01 00:00:01", max := .string "1970-01-01 00:00:01" },
    ?_, ?_, ?_⟩
  · decide +kernel
  · decide +kernel
  · decide

end ColumnStat

end Lakehouse
