import Lakehouse.Codec.Schema
import Lakehouse.Proofs.Codec.Cursor
import Lakehouse.Proofs.Schema.Valid

/-!
# Schemas survive JSON

The text of a schema is read as that schema, whatever its names, comments, column numbers and
metadata, as long as its document nests no deeper than a reader follows. It does not matter that an
entry of metadata carries no mark of its kind: a unit of time is written as its name, a number as a
literal and symbols as a list, even if there are none.

* `Metadata.Entry.restores_toJson`: an entry is never read as one of another kind.
* `Schema.restores_toJson`: a schema is read from its document if there is room for it.
* `Schema.levels`: how many nodes there are on the longest way down a schema.
* `Schema.depth_toJson_le_maxDepth`: there is room for 42 levels.
* `Schema.survives_json`: the text of a schema is read as that schema.

About the serialised form of `Schema`, which is modelled in `Codec.Schema` over `Json.Tree` and
`Json.Reader`.
-/

namespace Lakehouse

open Cursor

/-! ## Metadata -/

namespace Metadata

theorem Entry.legible_toJson (e : Entry) : e.toJson.Legible := by
  cases e with
  | precision p => exact Json.legible_text p.name
  | number n => exact Json.legible_integer n.toNat
  | symbols names => exact Json.legible_list fun name _ => Json.legible_text name

/-- **An entry is never taken for one of another kind.** -/
theorem Entry.restores_toJson (d : Nat) (e : Entry) : Restores Entry.ofJson? d e.toJson e := by
  unfold Restores Entry.ofJson?
  cases e with
  | precision p =>
    have hunit : named? Precision.ofName? ⟨.text p.name, d⟩ = some p := by cases p <;> rfl
    rw [Entry.toJson, hunit]
    rfl
  | number n =>
    have hunit : named? Precision.ofName? ⟨.integer n.toNat, d⟩ = none := rfl
    rw [Entry.toJson, hunit, uint32?_integer]
    rfl
  | symbols names =>
    have hunit : named? Precision.ofName? ⟨.list .text names, d⟩ = none := rfl
    have hnumber : uint32? ⟨.list .text names, d⟩ = none := rfl
    have hnames : Restores (Document.list? text?) d (.list .text names) names :=
      restores_list fun _ _ _ _ => rfl
    rw [Entry.toJson, hunit, hnumber]
    simp only [hnames.eq]
    split <;> rfl

theorem Entry.depth_toJson_le (e : Entry) : e.toJson.depth ≤ 1 := by
  cases e with
  | precision p => exact Nat.zero_le 1
  | number n => exact Nat.zero_le 1
  | symbols names => exact Json.depth_list_le.mpr fun name _ => Nat.le_refl 0

theorem legible_toJson (m : Metadata) : m.toJson.Legible :=
  Json.legible_record (List.forall_mem_map.mpr fun entry _ => entry.2.legible_toJson)

theorem depth_toJson_le_iff {d : Nat} {m : Metadata} :
    m.toJson.depth ≤ d + 1 ↔ ∀ entry ∈ m.entries, entry.2.toJson.depth ≤ d := by
  rw [toJson, Json.depth_record_le, List.forall_mem_map]

theorem restores_toJson (d : Nat) (m : Metadata) : Restores Metadata.ofJson? d m.toJson m := by
  cases d with
  | zero => rfl
  | succ d =>
    refine .of_iff depth_toJson_le_iff ?_
    simp only [ofJson?, toJson, members?_record, Option.bind_eq_bind, Option.bind_some]
    rw [List.map_map, List.mapM_map,
      mapM_eq_ite (P := fun entry => entry.2.toJson.depth ≤ d) (g := id)]
    · split
      · rw [List.map_id]
        exact congrArg some m.ofEntries_entries
      · rfl
    · rintro ⟨key, entry⟩ -
      change ((Key.ofName? key.name).bind fun k =>
        (Entry.ofJson? ⟨entry.toJson, d⟩).bind fun e => some (k, e)) = _
      rw [Key.ofName?_name, (Entry.restores_toJson d entry).eq]
      split <;> rfl

end Metadata

/-! ## Fields -/

namespace Field

theorem listToJson_eq_map (fields : List Field) : listToJson fields = fields.map toJson := by
  induction fields with
  | nil => rfl
  | cons f rest ih =>
    cases f
    rw [listToJson, ih]
    rfl

theorem legible_toJson {f : Field} (h : f.schema.toJson.Legible) : f.toJson.Legible := by
  have hid : ∀ n : Int32, (Json.integer n.toInt).Legible := fun n => Json.legible_integer n.toInt
  refine Json.legible_record ?_
  simp only [List.forall_mem_cons]
  exact ⟨Json.legible_text f.name, Json.legible_optional hid f.id, h, nofun⟩

theorem depth_toJson_le_iff {d : Nat} {f : Field} :
    f.toJson.depth ≤ d + 1 ↔ f.schema.toJson.depth ≤ d := by
  have hid : (Json.optional (fun n : Int32 => .integer n.toInt) f.id).depth = 0 :=
    Json.depth_optional (fun _ => rfl) f.id
  rw [toJson, Json.depth_record_le]
  simp [hid]

/-- A field is read from its document if its schema is, with one container less. -/
theorem restores_toJson {read : Cursor → Option Schema} {d : Nat} {f : Field}
    (h : ∀ d' < d, Restores read d' f.schema.toJson f.schema) :
    Restores (readWith read) d f.toJson f := by
  cases d with
  | zero => rfl
  | succ d =>
    refine .of_iff depth_toJson_le_iff ?_
    obtain ⟨name, id, schema⟩ := f
    have hmembers : Document.fields? memberNames 3 (⟨toJson ⟨name, id, schema⟩, d + 1⟩ : Cursor) =
        some [some ⟨.text name, d⟩, some ⟨.optional (fun n => .integer n.toInt) id, d⟩,
          some ⟨schema.toJson, d⟩] := fields?_record 3 rfl (by decide)
    have hname : text? ⟨.text name, d⟩ = some name := rfl
    have hid : Document.nullable Cursor.int32?
        (⟨.optional (fun n : Int32 => .integer n.toInt) id, d⟩ : Cursor) = some id :=
      nullable_optional fun n _ => ⟨rfl, int32?_integer d n⟩
    simp only [readWith, hmembers, Option.bind_eq_bind, Option.bind_some, Document.required,
      Document.optional, hname, hid, (h d (Nat.lt_succ_self d)).eq]
    split <;> rfl

end Field

/-! ## Schemas -/

namespace Schema

theorem toJson_eq_record (s : Schema) :
    s.toJson = .record [("name", .text s.name), ("data_type", .text s.type.name),
      ("comment", .optional .text s.comment), ("nullable", .boolean s.nullable),
      ("fields", .list Field.toJson s.fields), ("metadata", s.metadata.toJson)] := by
  cases s
  rw [toJson, Field.listToJson_eq_map]
  rfl

theorem legible_toJson (s : Schema) : s.toJson.Legible := by
  induction s using fieldwise with
  | step s ih =>
    rw [toJson_eq_record]
    refine Json.legible_record ?_
    simp only [List.forall_mem_cons]
    exact ⟨Json.legible_text s.name, Json.legible_text s.type.name,
      Json.legible_optional Json.legible_text s.comment, .boolean s.nullable,
      Json.legible_list fun f hf => Field.legible_toJson (ih f hf), s.metadata.legible_toJson,
      nofun⟩

theorem depth_toJson_le_iff {d : Nat} {s : Schema} : s.toJson.depth ≤ d + 1 ↔
    (Json.list Field.toJson s.fields).depth ≤ d ∧ s.metadata.toJson.depth ≤ d := by
  have hcomment : (Json.optional .text s.comment).depth = 0 :=
    Json.depth_optional (fun _ => rfl) s.comment
  rw [toJson_eq_record, Json.depth_record_le]
  simp [hcomment]

theorem depth_toJson_pos (s : Schema) : 0 < s.toJson.depth := by
  rw [toJson_eq_record]
  exact Nat.succ_pos _

/-- **A schema is read from its document** if there is room for it: nodes from the leaves up. -/
theorem restores_toJson (s : Schema) (levels d : Nat) (h : d < levels) :
    Restores (readLevels levels) d s.toJson s := by
  induction s using fieldwise generalizing levels d with
  | step s ih =>
    obtain ⟨levels, rfl⟩ := Nat.exists_eq_succ_of_ne_zero (Nat.ne_zero_of_lt h)
    cases d with
    | zero =>
      rw [toJson_eq_record]
      rfl
    | succ d =>
      refine .of_iff depth_toJson_le_iff ?_
      obtain ⟨name, type, comment, nullable, fields, metadata⟩ := s
      have hmembers : Document.fields? memberNames 6
          (⟨toJson ⟨name, type, comment, nullable, fields, metadata⟩, d + 1⟩ : Cursor) =
          some [some ⟨.text name, d⟩, some ⟨.text type.name, d⟩,
            some ⟨.optional .text comment, d⟩, some ⟨.boolean nullable, d⟩,
            some ⟨.list Field.toJson fields, d⟩, some ⟨metadata.toJson, d⟩] := by
        rw [toJson_eq_record]
        exact fields?_record 6 rfl (by decide)
      have hname : text? ⟨.text name, d⟩ = some name := rfl
      have htype : named? DataType.ofName? ⟨.text type.name, d⟩ = some type :=
        DataType.ofName?_name type
      have hcomment : Document.nullable text? (⟨.optional .text comment, d⟩ : Cursor) =
          some comment := nullable_optional fun _ _ => ⟨rfl, rfl⟩
      have hnullable : boolean? ⟨.boolean nullable, d⟩ = some nullable := rfl
      -- a field's schema stands two containers below, so one level less is enough for it
      have hfields : Restores (Document.list? (Field.readWith (readLevels levels))) d
          (.list Field.toJson fields) fields :=
        restores_list fun d' hd f hf =>
          Field.restores_toJson fun d'' hd' => ih f hf levels d'' (by omega)
      have hmetadata := metadata.restores_toJson d
      simp only [readLevels, hmembers, Option.bind_eq_bind, Option.bind_some, Document.required,
        Document.optional, hname, htype, hcomment, hnullable, hfields.eq, hmetadata.eq]
      by_cases hf : (Json.list Field.toJson fields).depth ≤ d <;>
        by_cases hm : metadata.toJson.depth ≤ d <;> simp [hf, hm]

end Schema

/-! ## Levels -/

mutual

/-- How many nodes there are on the longest way down. -/
def Schema.levels : Schema → Nat
  | ⟨_, _, _, _, fields, _⟩ => Field.levelsOf fields + 1

/-- How many nodes there are on the longest way down some fields. -/
def Field.levelsOf : List Field → Nat
  | [] => 0
  | ⟨_, _, s⟩ :: rest => max s.levels (Field.levelsOf rest)

end

namespace Schema

theorem levelsOf_le {n : Nat} {fields : List Field} :
    Field.levelsOf fields ≤ n ↔ ∀ f ∈ fields, f.schema.levels ≤ n := by
  induction fields with
  | nil => simp [Field.levelsOf]
  | cons f rest ih =>
    cases f
    rw [Field.levelsOf, Nat.max_le, ih, List.forall_mem_cons]

theorem levels_le {n : Nat} {s : Schema} :
    s.levels ≤ n + 1 ↔ ∀ f ∈ s.fields, f.schema.levels ≤ n := by
  cases s
  rw [levels, Nat.succ_le_succ_iff, levelsOf_le]

/-- A level opens three containers: the node, the list of its fields, and the field. -/
theorem depth_toJson_le (s : Schema) : s.toJson.depth ≤ 3 * s.levels := by
  induction s using fieldwise with
  | step s ih =>
    obtain ⟨n, hn⟩ : ∃ n, s.levels = n + 1 := by
      cases s
      exact ⟨_, rfl⟩
    have hlevels := levels_le.mp (Nat.le_of_eq hn)
    have hfields : ∀ f ∈ s.fields, f.toJson.depth ≤ 3 * n + 1 := fun f hf =>
      Field.depth_toJson_le_iff.mpr (Nat.le_trans (ih f hf) (Nat.mul_le_mul_left 3 (hlevels f hf)))
    have hentries : ∀ entry ∈ s.metadata.entries, entry.2.toJson.depth ≤ 3 * n + 1 := fun entry _ =>
      Nat.le_trans entry.2.depth_toJson_le (Nat.le_add_left 1 (3 * n))
    rw [hn]
    exact depth_toJson_le_iff.mpr
      ⟨Json.depth_list_le.mpr hfields, Metadata.depth_toJson_le_iff.mpr hentries⟩

/-- The lowest node of a way down opens at least two containers: itself and the list of its
fields. -/
theorem levels_le_of_depth {s : Schema} {d : Nat} (h : s.toJson.depth ≤ d) :
    3 * s.levels ≤ d + 1 := by
  induction s using fieldwise generalizing d with
  | step s ih =>
    have hpos : 0 < d := Nat.lt_of_lt_of_le s.depth_toJson_pos h
    obtain ⟨d, rfl⟩ := Nat.exists_eq_succ_of_ne_zero (Nat.ne_zero_of_lt hpos)
    obtain ⟨hfields, -⟩ := depth_toJson_le_iff.mp h
    cases d with
    | zero => cases hfields
    | succ d =>
      have hlevels : s.levels ≤ d / 3 + 1 := levels_le.mpr fun f hf => by
        have hfield := Json.depth_list_le.mp hfields f hf
        cases d with
        | zero => cases hfield
        | succ d =>
          have hbelow := ih f hf (Field.depth_toJson_le_iff.mp hfield)
          omega
      omega

/-- **There is room for 42 levels** in a document that is read. -/
theorem depth_toJson_le_maxDepth {s : Schema} :
    s.toJson.depth ≤ maxDepth ↔ s.levels ≤ 42 := by
  constructor
  · intro h
    have hlevels : 3 * s.levels ≤ 127 + 1 := levels_le_of_depth h
    omega
  · intro h
    have hdepth := s.depth_toJson_le
    exact Nat.le_trans hdepth (by unfold maxDepth; omega)

/-! ## Texts -/

/-- **Schemas survive JSON.** The text of a schema is read as that schema if its document nests no
deeper than a reader follows, which are 42 levels of nodes, and is refused otherwise. The text of an
entry of metadata is read as that entry. -/
theorem survives_json :
    (∀ s : Schema, Cursor.parse ofJson? s.toJson.render =
      if s.toJson.depth ≤ maxDepth then some s else none) ∧
    (∀ s : Schema, s.toJson.depth ≤ maxDepth ↔ s.levels ≤ 42) ∧
    ∀ e : Metadata.Entry, Cursor.parse Metadata.Entry.ofJson? e.toJson.render = some e := by
  refine ⟨fun s => ?_, fun s => depth_toJson_le_maxDepth, fun e => ?_⟩
  · rw [parse_render s.legible_toJson]
    exact s.restores_toJson (maxDepth + 1) maxDepth (Nat.lt_succ_self maxDepth)
  · have hdepth : e.toJson.depth ≤ maxDepth := Nat.le_trans e.depth_toJson_le (by decide)
    rw [parse_render e.legible_toJson, (Metadata.Entry.restores_toJson maxDepth e).eq,
      if_pos hdepth]

end Schema

end Lakehouse
