import Lakehouse.Codec.Table
import Lakehouse.Proofs.Codec.Cursor
import Lakehouse.Proofs.Decimal.Text
import Lakehouse.Proofs.Json.Double
import Lakehouse.Proofs.Json.Single

/-!
# Which values survive JSON

The text of a value is read as that value, unless the value is a floating-point number. A number that
is not finite is written as null and refused by the reader. A finite number of 32 bits survives. A
finite number of 64 bits is read as the number that floating-point arithmetic makes of its digits,
which may be another one.

* `Value.readBack`, `Value.Survives`: what is read of a value's text, and when it is that value.
* `Value.readBack_eq`: what is read, by the kind of the value.
* `ColumnStat.survives_iff`: a statistic survives if its bounds do.
* `values_survive_json`: all of it.

About the serialised forms of `Value` and `ColumnStat`, which are modelled in `Codec.Value` and
`Codec.Table`.
-/

namespace Lakehouse

open Cursor

namespace Value

/-- The value that is read from the text of a value. -/
def readBack (v : Value) : Option Value := Cursor.parse ofJson? v.toJson.render

/-- Whether a value is read as itself. -/
def Survives : Value → Prop
  | .float x => x.isFinite = true
  | .double x => x.isFinite = true ∧ Json.reread x = some x
  | _ => True

/-- What is read of a value's document. -/
def restored : Value → Option Value
  | .float x => if x.isFinite then some (.float x) else none
  | .double x => if x.isFinite then (Json.reread x).map .double else none
  | v => some v

/-! ## Documents -/

theorem legible_float {w : Width} {x : Binary w}
    (h : x.isFinite = true → (Json.ofFloat x).Legible) : (Json.ofFloat x).Legible := by
  cases hx : x.isFinite with
  | true => exact h hx
  | false =>
    rw [Json.ofFloat, hx]
    exact .null

theorem legible_member {kind : String} {j : Json} (h : j.Legible) :
    (Json.record [(kind, j)]).Legible :=
  Json.legible_record (by simpa using h)

theorem legible_toJson (v : Value) : v.toJson.Legible := by
  cases v with
  | null => exact Json.legible_text "Null"
  | boolean b => exact legible_member (.boolean b)
  | int n => exact legible_member (Json.legible_integer n.toInt)
  | long n => exact legible_member (Json.legible_integer n.toInt)
  | float x =>
    exact legible_member (legible_float fun hx =>
      (Json.ofFloat_of_moderate hx (Json.Single.moderate_shortest .even hx)).1)
  | double x =>
    exact legible_member (legible_float fun hx =>
      (Json.ofFloat_of_moderate hx (Json.Double.moderate_shortest .even hx)).1)
  | string s => exact legible_member (Json.legible_text s)
  | decimal d => exact legible_member (Json.legible_text d.text)
  | bytes bs => exact legible_member (Json.legible_list fun b _ => Json.legible_integer b.toNat)

theorem number?_ofFloat {w : Width} {x : Binary w} (d : Nat)
    (h : x.isFinite = true → Json.Moderate (x.shortest .even)) : number? ⟨.ofFloat x, d⟩ =
      if x.isFinite then (Json.reread x).map .float else none := by
  cases hx : x.isFinite with
  | true =>
    obtain ⟨-, literal, hliteral, hread⟩ := Json.ofFloat_of_moderate hx (h hx)
    rw [hliteral, if_pos rfl]
    exact hread
  | false =>
    rw [Json.ofFloat, hx]
    rfl

/-- A document with one member is read by its name. -/
theorem ofJson?_record (kind : String) (j : Json) (d : Nat) :
    ofJson? ⟨.record [(kind, j)], d + 1⟩ = ofContent? kind ⟨j, d⟩ := rfl

/-- **What is read of a value's document**, if two containers may be opened. -/
theorem ofJson?_toJson (v : Value) (d : Nat) : ofJson? ⟨v.toJson, d + 2⟩ = v.restored := by
  cases v with
  | null => rfl
  | boolean b => rfl
  | int n =>
    rw [toJson, ofJson?_record]
    exact congrArg (Option.map Value.int) (int32?_integer _ n)
  | long n =>
    rw [toJson, ofJson?_record]
    exact congrArg (Option.map Value.long) (int64?_integer _ n)
  | float x =>
    rw [toJson, ofJson?_record]
    change (number? ⟨.ofFloat x, d + 1⟩).map _ = _
    rw [number?_ofFloat _ (Json.Single.moderate_shortest .even), restored]
    split
    · rename_i hx
      obtain ⟨y, hreread, hconvert⟩ := Json.Single.exists_reread hx
      rw [hreread]
      exact congrArg (some ∘ Value.float) hconvert
    · rfl
  | double x =>
    rw [toJson, ofJson?_record]
    change (number? ⟨.ofFloat x, d + 1⟩).map _ = _
    rw [number?_ofFloat _ (Json.Double.moderate_shortest .even), restored]
    split
    · rw [Option.map_map]
      rfl
    · rfl
  | string s => rfl
  | decimal dec =>
    rw [toJson, ofJson?_record]
    change ((Decimal.readChars dec.text.toList).toOption).map Value.decimal = _
    rw [Decimal.text, String.toList_ofList, Decimal.readChars_chars]
    rfl
  | bytes bs =>
    rw [toJson, ofJson?_record]
    have hbytes : Restores (Document.list? byte?) (d + 1)
        (.list (fun b : UInt8 => .integer b.toNat) bs) bs :=
      restores_list fun d' _ b _ => (byte?_integer d' b).trans (if_pos (Nat.zero_le d')).symm
    change (Document.list? byte? _).map _ = _
    rw [hbytes.eq, if_pos (Json.depth_list_le.mpr fun _ _ => Nat.zero_le _)]
    rfl

/-- **What is read of a value's text.** -/
theorem readBack_eq (v : Value) : v.readBack = v.restored := by
  rw [readBack, parse_render v.legible_toJson]
  exact v.ofJson?_toJson 125

/-! ## Equality -/

theorem restored_eq_some_iff {v : Value} : v.restored = some v ↔ v.Survives := by
  cases v with
  | float x => simp [restored, Survives]
  | double x => simp [restored, Survives]
  | _ => simp [restored, Survives]

/-- A value that survives equals itself: it is no floating-point number that is none. -/
theorem Survives.same_self {v : Value} (h : v.Survives) : v.same v = true := by
  have hnumber : ∀ {w : Width} {x : Binary w}, x.isFinite = true → x.same x = true := fun hx => by
    have hword := of_decide_eq_true hx
    simp [Binary.same, Binary.isNaN, Nat.le_of_lt hword]
  cases v with
  | float x => exact hnumber h
  | double x => exact hnumber h.1
  | decimal d => exact beq_self_eq_true _
  | null => rfl
  | _ => exact beq_self_eq_true _

/-- A value that equals what was read survives: two numbers are equal without being the same only if
they are zeros, and a zero is read with its sign. -/
theorem survives_of_same {v u : Value} (h : v.restored = some u) (hsame : u.same v = true) :
    v.Survives := by
  cases v with
  | float x =>
    cases hx : x.isFinite with
    | true => exact hx
    | false => simp [restored, hx] at h
  | double x =>
    cases hx : x.isFinite with
    | false => simp [restored, hx] at h
    | true =>
      rw [restored, if_pos hx] at h
      obtain ⟨y, hy, rfl⟩ := Option.map_eq_some_iff.mp h
      refine ⟨hx, ?_⟩
      have hcases : y = x ∨ x.word = 0 := by
        have hequal : (y == x || (y.word == 0 && x.word == 0)) = true :=
          (Bool.and_eq_true_iff.mp hsame).2
        rcases Bool.or_eq_true_iff.mp hequal with hsame | hzero
        · exact .inl (eq_of_beq hsame)
        · exact .inr (eq_of_beq (Bool.and_eq_true_iff.mp hzero).2)
      rcases hcases with rfl | hzero
      · exact hy
      · have hshortest : x.shortest .even = ⟨0, 0⟩ := if_pos hzero
        exact Json.Double.reread_eq_self hx (hshortest ▸ by decide) (hshortest ▸ by decide)
  | _ => trivial

theorem readBack_of_survives {v : Value} (h : v.Survives) : v.readBack = some v := by
  rw [readBack_eq, restored_eq_some_iff.mpr h]

/-- **A value survives if an equal value is read of its text.** -/
theorem survives_iff {v : Value} :
    v.Survives ↔ ∃ u, v.readBack = some u ∧ u.same v = true := by
  constructor
  · exact fun h => ⟨v, readBack_of_survives h, h.same_self⟩
  · rintro ⟨u, hread, hsame⟩
    exact survives_of_same (v.readBack_eq ▸ hread) hsame

end Value

namespace ColumnStat

/-- The statistic that is read from the text of a statistic. -/
def readBack (s : ColumnStat) : Option ColumnStat := Cursor.parse ofJson? s.toJson.render

theorem legible_toJson (s : ColumnStat) : s.toJson.Legible := by
  refine Json.legible_record ?_
  simp only [List.forall_mem_cons]
  exact ⟨Json.legible_text s.path, s.min.legible_toJson, s.max.legible_toJson,
    Json.legible_integer s.nullCount.toNat, Json.legible_integer s.valueCount.toNat, nofun⟩

/-- **What is read of a statistic's document**: its bounds as they are read by themselves. -/
theorem ofJson?_toJson (s : ColumnStat) (d : Nat) : ofJson? ⟨s.toJson, d + 3⟩ =
    s.min.restored.bind fun min => s.max.restored.map fun max => { s with min, max } := by
  have hmembers : Document.fields? memberNames 5 (⟨s.toJson, d + 3⟩ : Cursor) =
      some [some ⟨.text s.path, d + 2⟩, some ⟨s.min.toJson, d + 2⟩, some ⟨s.max.toJson, d + 2⟩,
        some ⟨.integer s.nullCount.toNat, d + 2⟩, some ⟨.integer s.valueCount.toNat, d + 2⟩] :=
    fields?_record 5 rfl (by decide)
  have hpath : text? ⟨.text s.path, d + 2⟩ = some s.path := rfl
  simp only [ofJson?, hmembers, Option.bind_eq_bind, Option.bind_some, Document.required, hpath,
    Value.ofJson?_toJson, uint64?_integer]
  cases s.min.restored <;> cases s.max.restored <;> rfl

/-- **What is read of a statistic's text.** -/
theorem readBack_eq (s : ColumnStat) : s.readBack =
    s.min.restored.bind fun min => s.max.restored.map fun max => { s with min, max } := by
  rw [readBack, parse_render s.legible_toJson]
  exact s.ofJson?_toJson 124

/-- Equality of statistics: their bounds are compared as values. -/
def same (s t : ColumnStat) : Bool :=
  s.path == t.path && s.min.same t.min && s.max.same t.max && s.nullCount == t.nullCount &&
    s.valueCount == t.valueCount

/-- Whether both bounds of a statistic survive. -/
def Survives (s : ColumnStat) : Prop := s.min.Survives ∧ s.max.Survives

theorem readBack_of_survives {s : ColumnStat} (h : s.Survives) : s.readBack = some s := by
  rw [readBack_eq, Value.restored_eq_some_iff.mpr h.1, Value.restored_eq_some_iff.mpr h.2]
  rfl

/-- **A statistic survives if its bounds do.** -/
theorem survives_iff {s : ColumnStat} :
    s.Survives ↔ ∃ t, s.readBack = some t ∧ t.same s = true := by
  constructor
  · intro h
    refine ⟨s, readBack_of_survives h, ?_⟩
    simp [same, h.1.same_self, h.2.same_self]
  · rintro ⟨t, hread, hsame⟩
    rw [readBack_eq] at hread
    obtain ⟨min, hmin, hread⟩ := Option.bind_eq_some_iff.mp hread
    obtain ⟨max, hmax, rfl⟩ := Option.map_eq_some_iff.mp hread
    simp only [same, Bool.and_eq_true] at hsame
    obtain ⟨⟨⟨⟨-, hsameMin⟩, hsameMax⟩, -⟩, -⟩ := hsame
    exact ⟨Value.survives_of_same hmin hsameMin, Value.survives_of_same hmax hsameMax⟩

end ColumnStat

/-- **Which values survive JSON.** A value is read as an equal value if it is no floating-point
number, a finite number of 32 bits, or a finite number of 64 bits that floating-point arithmetic
makes of its own digits; it is read as itself then. Among the latter are those whose digits are a
number of fifty-three bits and whose power of ten is one. The text of a number that is not finite is
refused, and the text of a finite number of 64 bits is read as some number. A statistic survives if
its bounds do. -/
theorem values_survive_json (v : Value) (s : ColumnStat) (x : Binary32) (y : Binary64) :
    (v.Survives ↔ ∃ u, v.readBack = some u ∧ u.same v = true) ∧
    (v.Survives → v.readBack = some v) ∧
    (s.Survives ↔ ∃ t, s.readBack = some t ∧ t.same s = true) ∧
    (s.Survives → s.readBack = some s) ∧
    (x.isFinite = false → (Value.float x).readBack = none) ∧
    (y.isFinite = false → (Value.double y).readBack = none) ∧
    (y.isFinite = true → ∃ z, (Value.double y).readBack = some (.double z)) ∧
    (y.isFinite = true → (Json.written (y.shortest .even)).coefficient ≤ 2 ^ 53 →
      (Json.written (y.shortest .even)).exponent.natAbs ≤ 22 → (Value.double y).Survives) := by
  refine ⟨Value.survives_iff, Value.readBack_of_survives, ColumnStat.survives_iff,
    ColumnStat.readBack_of_survives, fun hx => ?_, fun hy => ?_, fun hy => ?_,
    fun hy hbits hpower => ⟨hy, Json.Double.reread_eq_self hy hbits hpower⟩⟩
  · rw [Value.readBack_eq, Value.restored, hx]
    rfl
  · rw [Value.readBack_eq, Value.restored, hy]
    rfl
  · obtain ⟨z, hz⟩ := Json.Double.exists_reread hy
    rw [Value.readBack_eq, Value.restored, if_pos hy, hz]
    exact ⟨z, rfl⟩

/-- One tenth survives, and so does a statistic that has it as a bound. -/
theorem values_survive_json_tenth :
    let tenth : Binary64 := ⟨0x3FB999999999999A⟩
    tenth.isFinite = true ∧ (Json.written (tenth.shortest .even)).coefficient ≤ 2 ^ 53 ∧
      (Json.written (tenth.shortest .even)).exponent.natAbs ≤ 22 ∧
      (Value.double tenth).readBack = some (.double tenth) ∧
      (ColumnStat.mk "size" (.double tenth) (.float ⟨0x3F000000⟩) 0 2).readBack =
        some ⟨"size", .double tenth, .float ⟨0x3F000000⟩, 0, 2⟩ := by
  intro tenth
  have hfinite : tenth.isFinite = true := by decide +kernel
  have hbits : (Json.written (tenth.shortest .even)).coefficient ≤ 2 ^ 53 := by decide +kernel
  have hpower : (Json.written (tenth.shortest .even)).exponent.natAbs ≤ 22 := by decide +kernel
  have hhalf : (Value.float ⟨0x3F000000⟩).Survives := by
    change Binary.isFinite _ = true
    decide +kernel
  obtain ⟨-, hvalue, -, hstat, -, -, -, hdouble⟩ := values_survive_json (.double tenth)
    (.mk "size" (.double tenth) (.float ⟨0x3F000000⟩) 0 2) ⟨0x3F000000⟩ tenth
  have hsurvives := hdouble hfinite hbits hpower
  exact ⟨hfinite, hbits, hpower, hvalue hsurvives, hstat ⟨hsurvives, hhalf⟩⟩

/-- An infinity is written as null, which is not read as a number. The largest odd integer of
fifty-three bits is read as the integer below it. -/
theorem bounds_lost_in_json :
    (Value.double (.infinity _ false)).toJson.render = "\x7b\"Double\":null\x7d" ∧
    (Value.double (.infinity _ false)).readBack = none ∧
    (Value.float (.infinity _ true)).readBack = none ∧
    (Value.double ⟨0x433FFFFFFFFFFFFF⟩).toJson.render =
      "\x7b\"Double\":9007199254740991.0\x7d" ∧
    (Value.double ⟨0x433FFFFFFFFFFFFF⟩).readBack = some (.double ⟨0x433FFFFFFFFFFFFE⟩) := by
  have hreread : Json.reread (⟨0x433FFFFFFFFFFFFF⟩ : Binary64) = some ⟨0x433FFFFFFFFFFFFE⟩ := by
    have hwritten : Json.written ((⟨0x433FFFFFFFFFFFFF⟩ : Binary64).shortest .even) =
        ⟨90071992547409910, -1⟩ := by decide +kernel
    rw [Json.reread, hwritten]
    refine (Json.Number.scale_neg (k := 1) (by decide) (by decide)).trans (congrArg some ?_)
    decide +kernel
  refine ⟨by decide +kernel, by decide +kernel, by decide +kernel, by decide +kernel, ?_⟩
  rw [Value.readBack_eq, Value.restored, if_pos (by decide +kernel), hreread]
  rfl

end Lakehouse
