import Lakehouse.Arrow.Bridge
import Lakehouse.Proofs.Schema.Built
import Mathlib.Data.List.Forall2

/-!
# What has Arrow columns

The bridge to Arrow visits the fields of a record, the element of a list, and the key and the value
of a map. It succeeds exactly if each node that it visits has the parts that it must have, and
numbers that Arrow can hold.

* `Arrow.Visits`: the nodes that are visited.
* `Arrow.Fits`: what is asked of each of them.
* `Arrow.typeOf_ok_iff`, `Arrow.columns_ok_iff`: all of a tree that was built has Arrow types
  exactly if every visited node fits.
-/

namespace Lakehouse

namespace Schema

variable {P : Schema → Prop} {s c : Schema} {name : String}

/-- The node of the first field of that name. -/
def child? (s : Schema) (name : String) : Option Schema :=
  (s.fields.find? (·.name == name)).map (·.schema)

theorem mem_of_child? (h : s.child? name = some c) : ∃ f ∈ s.fields, f.schema = c := by
  obtain ⟨f, hf, rfl⟩ := Option.map_eq_some_iff.mp h
  exact ⟨f, List.mem_of_find?_eq_some hf, rfl⟩

theorem Everywhere.child (h : s.Everywhere P) (hc : s.child? name = some c) : c.Everywhere P := by
  obtain ⟨f, hf, rfl⟩ := mem_of_child? hc
  exact h.field hf

/-! ## The numbers of a node that was built -/

theorem number?_eq_some {key : Metadata.Key} {n : UInt32} :
    s.metadata.number? key = some n ↔ s.requireNumber key = .ok n := by
  unfold Metadata.number? requireNumber
  cases s.metadata.get? key with
  | none => exact iff_of_false nofun nofun
  | some entry =>
    cases entry with
    | number m => simp
    | precision | symbols => exact iff_of_false nofun nofun

theorem IsBuilt.complete (h : s.IsBuilt) : s.complete = .ok s :=
  (build_eq_ok.mp (isBuilt_iff.mp h)).1

/-- A decimal that was built has digits, and no more of them behind the point than there are. -/
theorem IsBuilt.decimal (h : s.IsBuilt) (htype : s.type = .decimal) :
    ∃ precision scale, s.decimalPrecision? = some precision ∧ s.decimalScale? = some scale ∧
      precision ≠ 0 ∧ ¬ precision < scale := by
  have hcomplete := h.complete
  unfold Schema.complete at hcomplete
  rw [htype] at hcomplete
  obtain ⟨_, hcheck, -⟩ := bind_eq_ok.mp hcomplete
  obtain ⟨precision, hprecision, hcheck⟩ := bind_eq_ok.mp hcheck
  obtain ⟨scale, hscale, hcheck⟩ := bind_eq_ok.mp hcheck
  refine ⟨precision, scale, number?_eq_some.mpr hprecision, number?_eq_some.mpr hscale, ?_⟩
  split at hcheck
  · cases hcheck
  · rename_i hzero
    split at hcheck
    · cases hcheck
    · rename_i hle
      exact ⟨hzero, hle⟩

/-- An instant column that was built has a unit. -/
theorem IsBuilt.instant (h : s.IsBuilt) (htype : s.type = .timestamp ∨ s.type = .timestampNtz) :
    ∃ p, s.timestampPrecision? = some p := by
  have hcomplete : s.completeTimestamp = .ok s := by
    have hcomplete := h.complete
    unfold Schema.complete at hcomplete
    rcases htype with htype | htype
    · rw [htype] at hcomplete
      exact hcomplete
    · rw [htype] at hcomplete
      exact hcomplete
  unfold completeTimestamp at hcomplete
  unfold timestampPrecision?
  cases hentry : s.metadata.timestampPrecision with
  | none =>
    rw [hentry] at hcomplete
    have hsame := congrArg (fun t : Schema => t.metadata.timestampPrecision)
      (Except.ok.inj hcomplete)
    simp [Metadata.set, hentry] at hsame
  | some entry =>
    rw [hentry] at hcomplete
    cases entry with
    | precision p => exact ⟨p, rfl⟩
    | number | symbols => cases hcomplete

/-- A column of a fixed size that was built has its size. -/
theorem IsBuilt.fixed (h : s.IsBuilt) (htype : s.type = .fixed) :
    ∃ size, s.fixedSize? = some size := by
  have hcomplete := h.complete
  unfold Schema.complete at hcomplete
  rw [htype] at hcomplete
  obtain ⟨size, hsize, -⟩ := bind_eq_ok.mp hcomplete
  exact ⟨size, number?_eq_some.mpr hsize⟩

end Schema

namespace Arrow

variable {s c n : Schema} {a : DataType} {fields : List Lakehouse.Field}

/-! ## The type of a node from those of its parts -/

/-- The parts that a column of a type must have. -/
def partNames : Lakehouse.DataType → List String
  | .list => ["element"]
  | .map => ["key", "value"]
  | _ => []

theorem part_eq (child : String) : part child fields =
    (fields.find? (·.name == child)).map fun f => (typeOf f.schema, f.schema.nullable) := by
  induction fields with
  | nil => rfl
  | cons f rest ih =>
    obtain ⟨name, id, schema⟩ := f
    rw [part, List.find?_cons]
    by_cases h : name = child
    · rw [if_pos h, beq_iff_eq.mpr h]
      rfl
    · rw [if_neg h, beq_eq_false_iff_ne.mpr h]
      exact ih

theorem part_eq_child? (s : Schema) (child : String) :
    part child s.fields = (s.child? child).map fun c => (typeOf c, c.nullable) := by
  rw [part_eq, Schema.child?, Option.map_map]
  rfl

/-- The columns of some fields are the columns of each. -/
theorem columnsOf_eq_ok {columns : List Field} : columnsOf fields = .ok columns ↔
    List.Forall₂ (fun f column => ∃ a, typeOf f.schema = .ok a ∧
      column = .mk f.name a f.schema.nullable) fields columns := by
  induction fields generalizing columns with
  | nil => simp [columnsOf, eq_comm]
  | cons f rest ih =>
    obtain ⟨name, id, schema⟩ := f
    rw [columnsOf, bind_eq_ok]
    constructor
    · rintro ⟨a, ha, h⟩
      obtain ⟨others, hothers, h⟩ := bind_eq_ok.mp h
      cases h
      exact .cons ⟨a, ha, rfl⟩ (ih.mp hothers)
    · intro h
      cases h with
      | cons hhead hrest =>
        obtain ⟨a, ha, rfl⟩ := hhead
        exact ⟨a, ha, bind_eq_ok.mpr ⟨_, ih.mpr hrest, rfl⟩⟩

theorem columnsOf_ok_iff : (∃ columns, columnsOf fields = .ok columns) ↔
    ∀ f ∈ fields, ∃ a, typeOf f.schema = .ok a := by
  induction fields with
  | nil => exact iff_of_true ⟨[], rfl⟩ nofun
  | cons f rest ih =>
    rw [List.forall_mem_cons, ← ih]
    simp only [columnsOf_eq_ok]
    constructor
    · rintro ⟨columns, h⟩
      cases h with
      | cons hhead hrest =>
        obtain ⟨a, ha, -⟩ := hhead
        exact ⟨⟨a, ha⟩, _, hrest⟩
    · rintro ⟨⟨a, ha⟩, others, hothers⟩
      exact ⟨_, .cons ⟨a, ha, rfl⟩ hothers⟩

theorem typeOf_record (h : s.type = .record) : typeOf s = .ok a ↔
    ∃ columns, columnsOf s.fields = .ok columns ∧ a = .struct columns := by
  obtain ⟨name, type, comment, nullable, fields, metadata⟩ := s
  cases h
  rw [typeOf, bind_eq_ok]
  exact exists_congr fun columns => and_congr_right fun _ =>
    ⟨fun h => (Except.ok.inj h).symm, fun h => h ▸ rfl⟩

theorem typeOf_list (h : s.type = .list) : typeOf s = .ok a ↔
    ∃ c e, s.child? "element" = some c ∧ typeOf c = .ok e ∧
      a = .list (.mk "element" e c.nullable) := by
  have hpart := part_eq_child? s "element"
  obtain ⟨name, type, comment, nullable, fields, metadata⟩ := s
  cases h
  rw [typeOf, show part "element" fields = _ from hpart]
  cases Schema.child? _ "element" with
  | none => exact iff_of_false nofun nofun
  | some c =>
    simp only [Option.map_some, Option.some.injEq, exists_and_left, exists_eq_left', bind_eq_ok]
    exact exists_congr fun e => and_congr_right fun _ =>
      ⟨fun h => (Except.ok.inj h).symm, fun h => h ▸ rfl⟩

theorem typeOf_map (h : s.type = .map) : typeOf s = .ok a ↔
    ∃ key value k v, s.child? "key" = some key ∧ s.child? "value" = some value ∧
      typeOf key = .ok k ∧ typeOf value = .ok v ∧ a = entries k v value.nullable := by
  have hkey := part_eq_child? s "key"
  have hvalue := part_eq_child? s "value"
  obtain ⟨name, type, comment, nullable, fields, metadata⟩ := s
  cases h
  rw [typeOf, show part "key" fields = _ from hkey, show part "value" fields = _ from hvalue]
  cases Schema.child? _ "key" with
  | none => exact iff_of_false nofun nofun
  | some key =>
    cases Schema.child? _ "value" with
    | none => exact iff_of_false nofun nofun
    | some value =>
      simp only [Option.map_some, Option.some.injEq, bind_eq_ok]
      constructor
      · rintro ⟨k, hk, v, hv, h⟩
        exact ⟨key, value, k, v, rfl, rfl, hk, hv, (Except.ok.inj h).symm⟩
      · rintro ⟨_, _, k, v, rfl, rfl, hk, hv, rfl⟩
        exact ⟨k, hk, v, hv, rfl⟩

theorem typeOf_leaf (h : s.type.isStructural = false) : typeOf s = leafType s := by
  obtain ⟨name, type, comment, nullable, fields, metadata⟩ := s
  cases type with
  | record | list | map => cases h
  | _ => rfl

/-! ## The nodes that are visited -/

/-- A node that is visited on the way through a schema: the schema itself, a node below a field of a
record, or a node below a part of a list or of a map. -/
inductive Visits : Schema → Schema → Prop where
  | here {s : Schema} : Visits s s
  | field {s n : Schema} {f : Lakehouse.Field} (hrecord : s.type = .record) (hf : f ∈ s.fields)
      (h : Visits f.schema n) : Visits s n
  | part {s c n : Schema} {child : String} (hchild : child ∈ partNames s.type)
      (hc : s.child? child = some c) (h : Visits c n) : Visits s n

/-- What Arrow asks of a node: the parts of its type, a precision that a decimal of 128 bits has,
and a size that is a number of 32 bits with a sign. -/
structure Fits (s : Schema) : Prop where
  parts : ∀ child ∈ partNames s.type, ∃ c, s.child? child = some c
  precision : s.type = .decimal → ∃ p, s.decimalPrecision? = some p ∧ p ≤ 38
  size : s.type = .fixed → ∃ size, s.fixedSize? = some size ∧ size.toNat < 2 ^ (31 : Nat)

/-- All visited nodes fit exactly if the first does, and all that are visited from it. -/
theorem visits_fit_iff : (∀ n, Visits s n → Fits n) ↔
    Fits s ∧ (s.type = .record → ∀ f ∈ s.fields, ∀ n, Visits f.schema n → Fits n) ∧
      ∀ child ∈ partNames s.type, ∀ c, s.child? child = some c → ∀ n, Visits c n → Fits n := by
  constructor
  · intro h
    exact ⟨h s .here, fun hrecord f hf n hn => h n (.field hrecord hf hn),
      fun child hchild c hc n hn => h n (.part hchild hc hn)⟩
  · rintro ⟨hself, hfields, hparts⟩ n hn
    cases hn with
    | here => exact hself
    | field hrecord hf h => exact hfields hrecord _ hf n h
    | part hchild hc h => exact hparts _ hchild _ hc n h

/-! ## When there is a type -/

theorem partNames_of_leaf (hleaf : s.type.isStructural = false) : partNames s.type = [] := by
  cases htype : s.type with
  | list | map =>
    rw [htype] at hleaf
    cases hleaf
  | _ => rfl

/-- A node without parts fits if its numbers do. -/
theorem fits_leaf_iff (hleaf : s.type.isStructural = false) :
    Fits s ↔ (s.type = .decimal → ∃ p, s.decimalPrecision? = some p ∧ p ≤ 38) ∧
      (s.type = .fixed → ∃ size, s.fixedSize? = some size ∧ size.toNat < 2 ^ (31 : Nat)) := by
  refine ⟨fun h => ⟨h.precision, h.size⟩, fun h => ⟨fun child hchild => ?_, h.1, h.2⟩⟩
  rw [partNames_of_leaf hleaf] at hchild
  cases hchild

/-- A decimal that was built has few places behind the point, if it has few digits. -/
theorem decimalOf_ok_iff {precision scale : UInt32} (h : ¬ precision < scale) :
    (∃ a, decimalOf precision scale = .ok a) ↔ precision ≤ 38 := by
  unfold decimalOf
  by_cases hp : precision ≤ 38
  · have hscale : scale ≤ 127 := by
      rw [UInt32.le_iff_toNat_le] at hp ⊢
      rw [UInt32.lt_iff_toNat_lt] at h
      simp at hp ⊢
      omega
    rw [if_pos ⟨hp, hscale⟩]
    exact iff_of_true ⟨_, rfl⟩ hp
  · rw [if_neg fun hboth => hp hboth.1]
    exact iff_of_false nofun hp

theorem fixedOfSize_ok_iff {size : UInt32} :
    (∃ a, fixedOfSize size = .ok a) ↔ size.toNat < 2 ^ (31 : Nat) := by
  unfold fixedOfSize
  by_cases hsize : size.toNat < 2 ^ (31 : Nat)
  · rw [if_pos hsize]
    exact iff_of_true ⟨_, rfl⟩ hsize
  · rw [if_neg hsize]
    exact iff_of_false nofun hsize

theorem leafType_decimal (htype : s.type = .decimal) {precision scale : UInt32}
    (hprecision : s.decimalPrecision? = some precision) (hscale : s.decimalScale? = some scale) :
    leafType s = decimalOf precision scale := by
  unfold leafType
  rw [htype, hprecision, hscale]
  rfl

theorem leafType_fixed (htype : s.type = .fixed) {size : UInt32}
    (hsize : s.fixedSize? = some size) : leafType s = fixedOfSize size := by
  unfold leafType
  rw [htype, hsize]
  rfl

/-- A node without parts has a type exactly if it fits. -/
theorem leafType_ok_iff (hbuilt : s.IsBuilt) (hleaf : s.type.isStructural = false) :
    (∃ a, leafType s = .ok a) ↔ Fits s := by
  rw [fits_leaf_iff hleaf]
  cases htype : s.type with
  | record | list | map =>
    rw [htype] at hleaf
    cases hleaf
  | decimal =>
    obtain ⟨precision, scale, hprecision, hscale, -, hle⟩ := hbuilt.decimal htype
    rw [leafType_decimal htype hprecision hscale, decimalOf_ok_iff hle, hprecision]
    simp
  | fixed =>
    obtain ⟨size, hsize⟩ := hbuilt.fixed htype
    rw [leafType_fixed htype hsize, fixedOfSize_ok_iff, hsize]
    simp
  | _ =>
    refine iff_of_true ?_ ⟨nofun, nofun⟩
    unfold leafType
    rw [htype]
    exact ⟨_, rfl⟩

theorem fits_record (h : s.type = .record) : Fits s where
  parts child hchild := by
    rw [h] at hchild
    cases hchild
  precision hdecimal := by
    rw [h] at hdecimal
    cases hdecimal
  size hfixed := by
    rw [h] at hfixed
    cases hfixed

theorem fits_list_iff (h : s.type = .list) : Fits s ↔ ∃ c, s.child? "element" = some c := by
  constructor
  · intro hfits
    exact hfits.parts "element" (by rw [h]; exact List.mem_singleton_self _)
  · intro hc
    refine ⟨fun child hchild => ?_, fun hdecimal => ?_, fun hfixed => ?_⟩
    · rw [h] at hchild
      rw [List.mem_singleton.mp hchild]
      exact hc
    · rw [h] at hdecimal
      cases hdecimal
    · rw [h] at hfixed
      cases hfixed

theorem fits_map_iff (h : s.type = .map) :
    Fits s ↔ (∃ c, s.child? "key" = some c) ∧ ∃ c, s.child? "value" = some c := by
  constructor
  · intro hfits
    exact ⟨hfits.parts "key" (by rw [h]; exact List.mem_cons_self),
      hfits.parts "value" (by rw [h]; exact List.mem_cons_of_mem _ (List.mem_singleton_self _))⟩
  · rintro ⟨hkey, hvalue⟩
    refine ⟨fun child hchild => ?_, fun hdecimal => ?_, fun hfixed => ?_⟩
    · rw [h] at hchild
      rcases List.mem_cons.mp hchild with rfl | hchild
      · exact hkey
      · rw [List.mem_singleton.mp hchild]
        exact hvalue
    · rw [h] at hdecimal
      cases hdecimal
    · rw [h] at hfixed
      cases hfixed

theorem visits_record (h : s.type = .record) : (∀ n, Visits s n → Fits n) ↔
    ∀ f ∈ s.fields, ∀ n, Visits f.schema n → Fits n := by
  rw [visits_fit_iff, and_iff_right (fits_record h)]
  simp [h, partNames]

theorem visits_list (h : s.type = .list) : (∀ n, Visits s n → Fits n) ↔
    ∃ c, s.child? "element" = some c ∧ ∀ n, Visits c n → Fits n := by
  rw [visits_fit_iff, fits_list_iff h]
  cases hc : s.child? "element" with
  | none => simp
  | some c => simp [h, partNames, hc]

theorem visits_map (h : s.type = .map) : (∀ n, Visits s n → Fits n) ↔
    ∃ key value, s.child? "key" = some key ∧ s.child? "value" = some value ∧
      (∀ n, Visits key n → Fits n) ∧ ∀ n, Visits value n → Fits n := by
  rw [visits_fit_iff, fits_map_iff h]
  cases hkey : s.child? "key" with
  | none => simp
  | some key =>
    cases hvalue : s.child? "value" with
    | none => simp
    | some value => simp [h, partNames, hkey, hvalue]

theorem visits_leaf (hleaf : s.type.isStructural = false) :
    (∀ n, Visits s n → Fits n) ↔ Fits s := by
  have hrecord : s.type ≠ .record := by
    intro h
    rw [h] at hleaf
    cases hleaf
  rw [visits_fit_iff, partNames_of_leaf hleaf]
  simp [hrecord]

/-- **A tree that was built has an Arrow type exactly if every visited node fits.** -/
theorem typeOf_ok_iff (h : s.Everywhere Schema.IsBuilt) :
    (∃ a, typeOf s = .ok a) ↔ ∀ n, Visits s n → Fits n := by
  induction h with
  | @node s hbuilt hbelow ih =>
    -- a part is a field, and has its type by the induction
    have ihChild : ∀ {child : String} {c : Schema}, s.child? child = some c →
        ((∃ a, typeOf c = .ok a) ↔ ∀ n, Visits c n → Fits n) := by
      intro child c hc
      obtain ⟨f, hf, rfl⟩ := Schema.mem_of_child? hc
      exact ih f hf
    cases hstructural : s.type.isStructural with
    | false =>
      rw [typeOf_leaf hstructural, leafType_ok_iff hbuilt hstructural, visits_leaf hstructural]
    | true =>
      cases htype : s.type with
      | record =>
        rw [visits_record htype, ← forall₂_congr ih, ← columnsOf_ok_iff]
        simp only [typeOf_record htype]
        constructor
        · rintro ⟨_, columns, hcolumns, -⟩
          exact ⟨columns, hcolumns⟩
        · rintro ⟨columns, hcolumns⟩
          exact ⟨_, columns, hcolumns, rfl⟩
      | list =>
        rw [visits_list htype]
        simp only [typeOf_list htype]
        constructor
        · rintro ⟨_, c, e, hc, he, -⟩
          exact ⟨c, hc, (ihChild hc).mp ⟨e, he⟩⟩
        · rintro ⟨c, hc, hfit⟩
          obtain ⟨e, he⟩ := (ihChild hc).mpr hfit
          exact ⟨_, c, e, hc, he, rfl⟩
      | map =>
        rw [visits_map htype]
        simp only [typeOf_map htype]
        constructor
        · rintro ⟨_, key, value, k, v, hkey, hvalue, hk, hv, -⟩
          exact ⟨key, value, hkey, hvalue, (ihChild hkey).mp ⟨k, hk⟩, (ihChild hvalue).mp ⟨v, hv⟩⟩
        · rintro ⟨key, value, hkey, hvalue, hfit, hfit'⟩
          obtain ⟨k, hk⟩ := (ihChild hkey).mpr hfit
          obtain ⟨v, hv⟩ := (ihChild hvalue).mpr hfit'
          exact ⟨_, key, value, k, v, hkey, hvalue, hk, hv, rfl⟩
      | _ =>
        rw [htype] at hstructural
        cases hstructural

/-- A record that was built has Arrow columns exactly if every visited node fits. -/
theorem columns_ok_iff (hrecord : s.type = .record) (h : s.Everywhere Schema.IsBuilt) :
    (∃ a, columns s = .ok a) ↔ ∀ n, Visits s n → Fits n := by
  rw [visits_record hrecord, columns, if_pos hrecord, columnsOf_ok_iff]
  exact forall₂_congr fun f hf => typeOf_ok_iff (h.field hf)

end Arrow

end Lakehouse
