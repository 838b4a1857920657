import Lakehouse.Proofs.Arrow.Visited

/-!
# What comes back from Arrow

Whatever schema was built and has Arrow columns comes back from them: with its leaf paths, and at
every node with its type, its nullability and the numbers of its type. Symbols and identifiers come
back as text, and the key of a map as one that is never null. The schema that comes back has the
same Arrow columns again.

* `Arrow.SameNode`: what a node keeps.
* `Arrow.Corresponds`: the nodes of two schemas that stand in the same place.
* `Arrow.ofType_typeOf`: a tree that was built comes back.
* `Arrow.schema_returns`: when a record has Arrow columns, and what comes back from them.

About `to_arrow_schema` and `from_arrow_schema`, which are modelled in `Arrow.Bridge`.
-/

namespace Lakehouse.Arrow

open Schema (leafPathsIn)

/-! ## What is kept -/

/-- The type that a column comes back with. -/
def returnedType : Lakehouse.DataType → Lakehouse.DataType
  | .enumeration | .uuid => .string
  | type => type

/-- What a node keeps when it comes back as another one, which may be null or not. An entry of
metadata that does not belong to the type of the node is gone. -/
structure SameNode (nullable : Bool) (n m : Schema) : Prop where
  type : m.type = returnedType n.type
  nullable : m.nullable = nullable
  timestampPrecision : m.timestampPrecision? =
    if n.type.isTimestamp then n.timestampPrecision? else none
  decimalPrecision : m.decimalPrecision? =
    if n.type = .decimal then n.decimalPrecision? else none
  decimalScale : m.decimalScale? = if n.type = .decimal then n.decimalScale? else none
  fixedSize : m.fixedSize? = if n.type = .fixed then n.fixedSize? else none
  names : n.type = .record → m.fields.map (·.name) = n.fields.map (·.name)
  parts : ∀ child ∈ partNames n.type, ∃ c, m.child? child = some c

/-- Whether a part of a list or of a map may be null: a key never is. -/
def partNullable (child : String) (c : Schema) : Bool := child != "key" && c.nullable

/-- `Corresponds nullable s t nullable' n m`: in two schemas, the second of which may be null or
not, two nodes stand in the same place, and whether the second of these may be null. -/
inductive Corresponds : Bool → Schema → Schema → Bool → Schema → Schema → Prop where
  | here {nullable : Bool} {s t : Schema} : Corresponds nullable s t nullable s t
  | field {nullable nullable' : Bool} {s t n m : Schema} {f g : Lakehouse.Field}
      (hrecord : s.type = .record) (hfg : (f, g) ∈ s.fields.zip t.fields)
      (h : Corresponds f.schema.nullable f.schema g.schema nullable' n m) :
      Corresponds nullable s t nullable' n m
  | part {nullable nullable' : Bool} {s t c d n m : Schema} {child : String}
      (hchild : child ∈ partNames s.type) (hc : s.child? child = some c)
      (hd : t.child? child = some d)
      (h : Corresponds (partNullable child c) c d nullable' n m) :
      Corresponds nullable s t nullable' n m

/-- A node of an Arrow type has come back as another one, with all nodes below it. -/
structure Returned (a : DataType) (nullable : Bool) (s t : Schema) : Prop where
  nodes : ∀ nullable' n m, Corresponds nullable s t nullable' n m → SameNode nullable' n m
  again : typeOf t = .ok a
  paths : s.type = .record → ∀ above, leafPathsIn above t.fields = leafPathsIn above s.fields

variable {s t c d : Schema} {a : DataType} {name : String} {nullable : Bool}
  {fields gs : List Lakehouse.Field}

theorem Returned.root (h : Returned a nullable s t) : SameNode nullable s t := h.nodes _ _ _ .here

/-! ## Nodes without parts -/

theorem corresponds_leaf (hleaf : s.type.isStructural = false) {nullable' : Bool} {n m : Schema}
    (h : Corresponds nullable s t nullable' n m) : nullable' = nullable ∧ n = s ∧ m = t := by
  cases h with
  | here => exact ⟨rfl, rfl, rfl⟩
  | field hrecord =>
    rw [hrecord] at hleaf
    cases hleaf
  | part hchild =>
    rw [partNames_of_leaf hleaf] at hchild
    cases hchild

/-- A leaf has come back if its node has, and has its Arrow type again. -/
theorem returned_leaf (hleaf : s.type.isStructural = false) (hnode : SameNode nullable s t)
    (hagain : leafType t = .ok a) : Returned a nullable s t where
  nodes nullable' n m h := by
    obtain ⟨rfl, rfl, rfl⟩ := corresponds_leaf hleaf h
    exact hnode
  again := by
    have hleaf' : t.type.isStructural = false := by
      rw [hnode.type]
      cases htype : s.type with
      | record | list | map =>
        rw [htype] at hleaf
        cases hleaf
      | _ => rfl
    rw [typeOf_leaf hleaf', hagain]
  paths hrecord := by
    rw [hrecord] at hleaf
    cases hleaf

/-- A node without parts is kept if the numbers of its type are. -/
theorem sameNode_leaf (hleaf : s.type.isStructural = false) {metadata : Metadata}
    (hprecision : Schema.timestampPrecision? ⟨name, returnedType s.type, none, nullable, [],
        metadata⟩ = if s.type.isTimestamp then s.timestampPrecision? else none)
    (hdecimal : metadata.number? .decimalPrecision =
      if s.type = .decimal then s.decimalPrecision? else none)
    (hscale : metadata.number? .decimalScale =
      if s.type = .decimal then s.decimalScale? else none)
    (hsize : metadata.number? .fixedBytesSize =
      if s.type = .fixed then s.fixedSize? else none) :
    SameNode nullable s ⟨name, returnedType s.type, none, nullable, [], metadata⟩ where
  type := rfl
  nullable := rfl
  timestampPrecision := hprecision
  decimalPrecision := hdecimal
  decimalScale := hscale
  fixedSize := hsize
  names hrecord := by
    rw [hrecord] at hleaf
    cases hleaf
  parts child hchild := by
    rw [partNames_of_leaf hleaf] at hchild
    cases hchild

theorem unitOf_spec (p : Precision) : precisionOf name (unitOf (some p)) = .ok p := by
  cases p with
  | millis | micros => rfl

/-- A timestamp comes back with its unit. -/
theorem ofType_instant (hbuilt : s.IsBuilt) (htype : s.type = .timestamp ∨ s.type = .timestampNtz)
    (ha : leafType s = .ok a) : ∃ t, ofType name nullable a = .ok t ∧ Returned a nullable s t := by
  obtain ⟨p, hp⟩ := hbuilt.instant htype
  have hleaf : s.type.isStructural = false := by
    rcases htype with htype | htype <;> rw [htype] <;> rfl
  have hnode : SameNode nullable s ⟨name, returnedType s.type, none, nullable, [],
      Metadata.empty.set .timestampPrecision (.precision p)⟩ := by
    refine sameNode_leaf hleaf ?_ ?_ ?_ ?_
    · rcases htype with htype | htype <;> rw [htype, hp] <;> rfl
    · rcases htype with htype | htype <;> rw [htype] <;> rfl
    · rcases htype with htype | htype <;> rw [htype] <;> rfl
    · rcases htype with htype | htype <;> rw [htype] <;> rfl
  unfold leafType at ha
  rw [hp] at ha
  rcases htype with htype | htype
  · rw [htype] at ha hnode
    cases ha
    refine ⟨_, ?_, returned_leaf hleaf hnode rfl⟩
    simp only [ofType, ofLeaf, unitOf_spec, ok_bind]
    rfl
  · rw [htype] at ha hnode
    cases ha
    refine ⟨_, ?_, returned_leaf hleaf hnode rfl⟩
    simp only [ofType, ofLeaf, unitOf_spec, ok_bind]
    rfl

theorem toUInt32_toUInt8 {p : UInt32} (h : p ≤ 38) : p.toUInt8.toUInt32 = p := by
  have hle : p.toNat ≤ 38 := UInt32.le_iff_toNat_le.mp h
  rw [← UInt32.toNat_inj]
  simp
  omega

theorem ofNat_toInt_int8 {scale : UInt32} (h : scale ≤ 127) :
    ¬ Int8.ofNat scale.toNat < 0 ∧
      UInt32.ofNat (Int8.ofNat scale.toNat).toInt.toNat = scale := by
  have hle : scale.toNat ≤ 127 := UInt32.le_iff_toNat_le.mp h
  have hint : (Int8.ofNat scale.toNat).toInt = scale.toNat :=
    Int8.toInt_ofNat_of_lt (by omega)
  constructor
  · rw [Int8.lt_iff_toInt_lt, hint]
    simp
  · rw [hint]
    simp

theorem ofNat_toInt_int32 {size : UInt32} (h : size.toNat < 2 ^ (31 : Nat)) :
    ¬ Int32.ofNat size.toNat < 0 ∧
      UInt32.ofNat (Int32.ofNat size.toNat).toInt.toNat = size := by
  have hint : (Int32.ofNat size.toNat).toInt = size.toNat :=
    Int32.toInt_ofNat_of_lt (by omega)
  constructor
  · rw [Int32.lt_iff_toInt_lt, hint]
    simp
  · rw [hint]
    simp

/-- The metadata of a decimal with so many digits, and so many of them behind the point. -/
def decimalMetadata (precision scale : UInt32) : Metadata :=
  (Metadata.empty.set .decimalPrecision (.number precision)).set .decimalScale (.number scale)

theorem node_decimal {precision scale : UInt32} (hzero : precision ≠ 0)
    (hle : ¬ precision < scale) :
    node name .decimal nullable [] (decimalMetadata precision scale) =
      .ok ⟨name, .decimal, none, nullable, [], decimalMetadata precision scale⟩ := by
  refine Schema.build_eq_ok.mpr ⟨?_, rfl⟩
  have hcheck : Schema.checkDecimal
      ⟨name, .decimal, none, nullable, [], decimalMetadata precision scale⟩ = .ok () := by
    simp only [Schema.checkDecimal, Schema.requireNumber, decimalMetadata, Metadata.get?_set]
    exact (if_neg hzero).trans (if_neg hle)
  simp only [Schema.complete, hcheck]
  rfl

/-- A decimal comes back with its digits. -/
theorem ofType_decimal (hbuilt : s.IsBuilt) (hdecimal : s.type = .decimal)
    (ha : leafType s = .ok a) : ∃ t, ofType name nullable a = .ok t ∧ Returned a nullable s t := by
  obtain ⟨precision, scale, hprecision, hscale, hzero, hle⟩ := hbuilt.decimal hdecimal
  have hof := ha
  rw [leafType_decimal hdecimal hprecision hscale] at hof
  have hleaf : s.type.isStructural = false := by
    rw [hdecimal]
    rfl
  have hnode : SameNode nullable s
      ⟨name, returnedType s.type, none, nullable, [], decimalMetadata precision scale⟩ := by
    refine sameNode_leaf hleaf ?_ ?_ ?_ ?_
    · rw [hdecimal]
      rfl
    · rw [if_pos hdecimal, hprecision]
      rfl
    · rw [if_pos hdecimal, hscale]
      rfl
    · rw [hdecimal]
      rfl
  rw [hdecimal] at hnode
  refine ⟨_, ?_, returned_leaf hleaf hnode ?_⟩
  · unfold decimalOf at hof
    split at hof
    · rename_i hbounds
      cases hof
      obtain ⟨hnonneg, hback⟩ := ofNat_toInt_int8 hbounds.2
      simp only [ofType, ofLeaf]
      rw [if_neg hnonneg, toUInt32_toUInt8 hbounds.1, hback]
      exact node_decimal hzero hle
    · cases hof
  · rw [leafType_decimal rfl rfl rfl, hof]

/-- A column of a fixed size comes back with its size. -/
theorem ofType_fixed (hbuilt : s.IsBuilt) (hfixed : s.type = .fixed)
    (ha : leafType s = .ok a) : ∃ t, ofType name nullable a = .ok t ∧ Returned a nullable s t := by
  obtain ⟨size, hsize⟩ := hbuilt.fixed hfixed
  have hof := ha
  rw [leafType_fixed hfixed hsize] at hof
  have hleaf : s.type.isStructural = false := by
    rw [hfixed]
    rfl
  have hnode : SameNode nullable s ⟨name, returnedType s.type, none, nullable, [],
      Metadata.empty.set .fixedBytesSize (.number size)⟩ := by
    refine sameNode_leaf hleaf ?_ ?_ ?_ ?_
    · rw [hfixed]
      rfl
    · rw [hfixed]
      rfl
    · rw [hfixed]
      rfl
    · rw [if_pos hfixed, hsize]
      rfl
  rw [hfixed] at hnode
  refine ⟨_, ?_, returned_leaf hleaf hnode ?_⟩
  · unfold fixedOfSize at hof
    split at hof
    · rename_i hbound
      cases hof
      obtain ⟨hnonneg, hback⟩ := ofNat_toInt_int32 hbound
      simp only [ofType, ofLeaf]
      rw [if_neg hnonneg, hback]
      rfl
    · cases hof
  · rw [leafType_fixed rfl rfl, hof]

/-- **A node without parts comes back.** -/
theorem ofType_leafType (hbuilt : s.IsBuilt) (hleaf : s.type.isStructural = false)
    (ha : leafType s = .ok a) : ∃ t, ofType name nullable a = .ok t ∧ Returned a nullable s t := by
  cases htype : s.type with
  | record | list | map =>
    rw [htype] at hleaf
    cases hleaf
  | timestamp => exact ofType_instant hbuilt (.inl htype) ha
  | timestampNtz => exact ofType_instant hbuilt (.inr htype) ha
  | decimal => exact ofType_decimal hbuilt htype ha
  | fixed => exact ofType_fixed hbuilt htype ha
  | _ =>
    have hnode : SameNode nullable s ⟨name, returnedType s.type, none, nullable, [], .empty⟩ := by
      refine sameNode_leaf hleaf ?_ ?_ ?_ ?_ <;> rw [htype] <;> rfl
    refine ⟨_, ?_, returned_leaf hleaf hnode ?_⟩
    · unfold leafType at ha
      rw [htype] at ha ⊢
      cases ha
      rfl
    · rw [← ha]
      unfold leafType
      rw [htype]
      rfl

/-! ## Nodes with parts -/

/-- The nodes below a node are those below its fields and its parts. -/
theorem nodes_of_parts (hroot : SameNode nullable s t)
    (hfields : s.type = .record → ∀ f g : Lakehouse.Field, (f, g) ∈ s.fields.zip t.fields →
      ∃ a, Returned a f.schema.nullable f.schema g.schema)
    (hparts : ∀ child ∈ partNames s.type, ∀ c d, s.child? child = some c →
      t.child? child = some d → ∃ a, Returned a (partNullable child c) c d) :
    ∀ nullable' n m, Corresponds nullable s t nullable' n m → SameNode nullable' n m := by
  intro nullable' n m h
  cases h with
  | here => exact hroot
  | field hrecord hfg h =>
    obtain ⟨a, hreturned⟩ := hfields hrecord _ _ hfg
    exact hreturned.nodes _ _ _ h
  | part hchild hc hd h =>
    obtain ⟨a, hreturned⟩ := hparts _ hchild _ _ hc hd
    exact hreturned.nodes _ _ _ h

/-- A node with parts is kept if its fields or parts are there again. -/
theorem sameNode_structural (hstructural : s.type.isStructural = true)
    (hnames : s.type = .record → gs.map (·.name) = s.fields.map (·.name))
    (hparts : ∀ child ∈ partNames s.type, child ∈ gs.map (·.name)) :
    SameNode nullable s ⟨name, s.type, none, nullable, gs, .empty⟩ := by
  have hnumbers : s.type.isTimestamp = false ∧ s.type ≠ .decimal ∧ s.type ≠ .fixed ∧
      returnedType s.type = s.type := by
    cases htype : s.type with
    | record | list | map => exact ⟨rfl, nofun, nofun, rfl⟩
    | _ =>
      rw [htype] at hstructural
      cases hstructural
  obtain ⟨hinstant, hdecimal, hfixed, hsame⟩ := hnumbers
  refine ⟨hsame.symm, rfl, ?_, (if_neg hdecimal).symm, (if_neg hdecimal).symm,
    (if_neg hfixed).symm, hnames, fun child hchild => ?_⟩
  · rw [hinstant]
    rfl
  · obtain ⟨f, hf, hname⟩ := List.mem_map.mp (hparts child hchild)
    have hfound : (gs.find? (·.name == child)).isSome = true :=
      List.find?_isSome.mpr ⟨f, hf, beq_iff_eq.mpr hname⟩
    obtain ⟨g, hg⟩ := Option.isSome_iff_exists.mp hfound
    exact ⟨g.schema, by rw [Schema.child?, hg]; rfl⟩

/-- A field has come back under its name. -/
def FieldReturned (f g : Lakehouse.Field) : Prop :=
  g.name = f.name ∧ ∃ a, Returned a f.schema.nullable f.schema g.schema

/-- What the induction on a tree says of a node below. -/
def Returns (s : Schema) : Prop :=
  ∀ a name nullable, typeOf s = .ok a →
    ∃ t, ofType name nullable a = .ok t ∧ Returned a nullable s t

/-- Fields come back one by one, and have their columns again. -/
theorem fields_return {columns : List Field} (hreturns : ∀ f ∈ fields, Returns f.schema)
    (h : columnsOf fields = .ok columns) :
    ∃ gs, ofColumns columns = .ok gs ∧ List.Forall₂ FieldReturned fields gs ∧
      columnsOf gs = .ok columns := by
  simp only [columnsOf_eq_ok] at h ⊢
  induction h with
  | nil => exact ⟨[], rfl, .nil, .nil⟩
  | @cons f column fields columns hhead hrest ih =>
    obtain ⟨hreturn, hreturns⟩ := List.forall_mem_cons.mp hreturns
    obtain ⟨gs, hgs, hsame, hagain⟩ := ih hreturns
    obtain ⟨a, ha, rfl⟩ := hhead
    obtain ⟨t, ht, hreturned⟩ := hreturn a f.name f.schema.nullable ha
    refine ⟨⟨f.name, none, t⟩ :: gs, ?_, .cons ⟨rfl, a, hreturned⟩ hsame,
      .cons ⟨a, hreturned.again, ?_⟩ hagain⟩
    · rw [ofColumns, ht, ok_bind, hgs]
      rfl
    · rw [hreturned.root.nullable]

theorem names_return (h : List.Forall₂ FieldReturned fields gs) :
    gs.map (·.name) = fields.map (·.name) := by
  induction h with
  | nil => rfl
  | cons hhead _ ih => rw [List.map_cons, List.map_cons, hhead.1, ih]

theorem leafPathsIn_cons (above : String) (f : Lakehouse.Field) (rest : List Lakehouse.Field) :
    leafPathsIn above (f :: rest) =
      (if f.schema.type = .record then leafPathsIn (Schema.extend above f.name) f.schema.fields
        else [Schema.extend above f.name]) ++ leafPathsIn above rest := by
  obtain ⟨name, id, schema⟩ := f
  cases schema
  rw [leafPathsIn]

theorem returnedType_eq_record {type : Lakehouse.DataType} :
    returnedType type = .record ↔ type = .record := by
  cases type <;> simp [returnedType]

/-- The leaf paths below some fields come back. -/
theorem leafPaths_return (h : List.Forall₂ FieldReturned fields gs) (above : String) :
    leafPathsIn above gs = leafPathsIn above fields := by
  induction h with
  | nil => rfl
  | @cons f g fields gs hhead _ ih =>
    obtain ⟨hname, a, hreturned⟩ := hhead
    rw [leafPathsIn_cons, leafPathsIn_cons, hname, ih, hreturned.root.type]
    by_cases hrecord : f.schema.type = .record
    · rw [if_pos hrecord, if_pos (returnedType_eq_record.mpr hrecord), hreturned.paths hrecord]
    · rw [if_neg hrecord, if_neg (mt returnedType_eq_record.mp hrecord)]

/-- A record whose fields have names of their own can be built. -/
theorem node_record (h : (gs.map (·.name)).Nodup) :
    node name .record nullable gs .empty = .ok ⟨name, .record, none, nullable, gs, .empty⟩ := by
  refine Schema.build_eq_ok.mpr ⟨rfl, ?_⟩
  have hnone : Schema.repeated? [] (gs.map (·.name)) = none :=
    Schema.repeated?_eq_none.mpr ⟨h, fun _ _ hmem => nomatch hmem⟩
  unfold Schema.checkNames
  rw [hnone]

/-- **A record comes back over fields that do.** -/
theorem record_returns (hbuilt : s.IsBuilt) (hrecord : s.type = .record) {columns : List Field}
    (hreturns : ∀ f ∈ s.fields, Returns f.schema) (h : columnsOf s.fields = .ok columns)
    (name : String) (nullable : Bool) :
    ∃ t, (ofColumns columns >>= fun gs => node name .record nullable gs .empty) = .ok t ∧
      t.type = .record ∧ columnsOf t.fields = .ok columns ∧
      Returned (.struct columns) nullable s t := by
  obtain ⟨gs, hgs, hsame, hagain⟩ := fields_return hreturns h
  have hnames := names_return hsame
  have hnode : SameNode nullable s ⟨name, .record, none, nullable, gs, .empty⟩ := by
    have hnode : SameNode nullable s ⟨name, s.type, none, nullable, gs, .empty⟩ :=
      sameNode_structural (by rw [hrecord]; rfl) (fun _ => hnames) fun child hchild => by
        rw [hrecord] at hchild
        cases hchild
    rw [hrecord] at hnode
    exact hnode
  refine ⟨⟨name, .record, none, nullable, gs, .empty⟩, ?_, rfl, hagain, ?_, ?_, ?_⟩
  · rw [hgs, ok_bind]
    exact node_record (hnames ▸ Schema.nodup_names_of_build hbuilt hrecord)
  · refine nodes_of_parts hnode (fun _ f g hfg => ?_) fun child hchild => ?_
    · obtain ⟨-, a, hreturned⟩ := List.forall₂_zip hsame hfg
      exact ⟨a, hreturned⟩
    · rw [hrecord] at hchild
      cases hchild
  · exact (typeOf_record rfl).mpr ⟨columns, hagain, rfl⟩
  · exact fun _ above => leafPaths_return hsame above

/-- A list comes back over an element that does. -/
theorem list_returns (hlist : s.type = .list) (hc : s.child? "element" = some c)
    (hreturns : Returns c) (ha : typeOf c = .ok a) (name : String) (nullable : Bool) :
    ∃ t, ofType name nullable (.list (.mk "element" a c.nullable)) = .ok t ∧
      Returned (.list (.mk "element" a c.nullable)) nullable s t := by
  obtain ⟨d, hd, hreturned⟩ := hreturns a "element" c.nullable ha
  have hnode : SameNode nullable s
      ⟨name, .list, none, nullable, [⟨"element", none, d⟩], .empty⟩ := by
    have hnode : SameNode nullable s
        ⟨name, s.type, none, nullable, [⟨"element", none, d⟩], .empty⟩ := by
      refine sameNode_structural (by rw [hlist]; rfl) (fun hrecord => ?_) fun child hchild => ?_
      · rw [hlist] at hrecord
        cases hrecord
      · rw [hlist] at hchild
        exact hchild
    rw [hlist] at hnode
    exact hnode
  have hagain : Schema.child? ⟨name, .list, none, nullable, [⟨"element", none, d⟩], .empty⟩
      "element" = some d := rfl
  refine ⟨⟨name, .list, none, nullable, [⟨"element", none, d⟩], .empty⟩, ?_, ?_, ?_, ?_⟩
  · simp only [ofType, ofColumn, hd, ok_bind]
    rfl
  · refine nodes_of_parts hnode (fun hrecord => ?_) fun child hchild c' d' hc' hd' => ?_
    · rw [hlist] at hrecord
      cases hrecord
    · rw [hlist] at hchild
      cases List.mem_singleton.mp hchild
      cases hc.symm.trans hc'
      cases hagain.symm.trans hd'
      exact ⟨a, hreturned⟩
  · rw [typeOf_list rfl]
    exact ⟨d, a, hagain, hreturned.again, by rw [hreturned.root.nullable]⟩
  · intro hrecord
    rw [hlist] at hrecord
    cases hrecord

/-- A map comes back over a key and a value that do. -/
theorem map_returns {key value : Schema} {k v : DataType} (hmap : s.type = .map)
    (hkey : s.child? "key" = some key) (hvalue : s.child? "value" = some value)
    (hreturns : Returns key) (hreturns' : Returns value) (hk : typeOf key = .ok k)
    (hv : typeOf value = .ok v) (name : String) (nullable : Bool) :
    ∃ t, ofType name nullable (entries k v value.nullable) = .ok t ∧
      Returned (entries k v value.nullable) nullable s t := by
  obtain ⟨key', hkey', hreturned⟩ := hreturns k "key" false hk
  obtain ⟨value', hvalue', hreturned'⟩ := hreturns' v "value" value.nullable hv
  generalize hgs : ([⟨"key", none, key'⟩, ⟨"value", none, value'⟩] : List Lakehouse.Field) = gs
  have hnode : SameNode nullable s ⟨name, .map, none, nullable, gs, .empty⟩ := by
    have hnode : SameNode nullable s ⟨name, s.type, none, nullable, gs, .empty⟩ := by
      refine sameNode_structural (by rw [hmap]; rfl) (fun hrecord => ?_) fun child hchild => ?_
      · rw [hmap] at hrecord
        cases hrecord
      · rw [hmap] at hchild
        rw [← hgs]
        exact hchild
    rw [hmap] at hnode
    exact hnode
  have hagain : Schema.child? ⟨name, .map, none, nullable, gs, .empty⟩ "key" = some key' := by
    rw [← hgs]
    rfl
  have hagain' : Schema.child? ⟨name, .map, none, nullable, gs, .empty⟩ "value" =
      some value' := by
    rw [← hgs]
    rfl
  refine ⟨⟨name, .map, none, nullable, gs, .empty⟩, ?_, ?_, ?_, ?_⟩
  · simp only [entries, ofType, ofColumn, hkey', hvalue', ok_bind, hgs]
    rfl
  · refine nodes_of_parts hnode (fun hrecord => ?_) fun child hchild c d hc hd => ?_
    · rw [hmap] at hrecord
      cases hrecord
    · rw [hmap] at hchild
      rcases List.mem_cons.mp hchild with rfl | hchild
      · cases hkey.symm.trans hc
        cases hagain.symm.trans hd
        exact ⟨k, hreturned⟩
      · cases List.mem_singleton.mp hchild
        cases hvalue.symm.trans hc
        cases hagain'.symm.trans hd
        exact ⟨v, hreturned'⟩
  · rw [typeOf_map rfl]
    exact ⟨key', value', k, v, hagain, hagain', hreturned.again, hreturned'.again, by
      rw [hreturned'.root.nullable]⟩
  · intro hrecord
    rw [hmap] at hrecord
    cases hrecord

/-- **A tree that was built comes back.** -/
theorem ofType_typeOf (h : s.Everywhere Schema.IsBuilt) : Returns s := by
  induction h with
  | @node s hbuilt hbelow ih =>
    intro a name nullable ha
    have ihChild : ∀ {child : String} {c : Schema}, s.child? child = some c → Returns c := by
      intro child c hc
      obtain ⟨f, hf, rfl⟩ := Schema.mem_of_child? hc
      exact ih f hf
    cases hstructural : s.type.isStructural with
    | false =>
      rw [typeOf_leaf hstructural] at ha
      exact ofType_leafType hbuilt hstructural ha
    | true =>
      cases htype : s.type with
      | record =>
        obtain ⟨columns, hcolumns, rfl⟩ := (typeOf_record htype).mp ha
        obtain ⟨t, ht, -, -, hreturned⟩ := record_returns hbuilt htype ih hcolumns name nullable
        exact ⟨t, ht, hreturned⟩
      | list =>
        obtain ⟨c, e, hc, he, rfl⟩ := (typeOf_list htype).mp ha
        exact list_returns htype hc (ihChild hc) he name nullable
      | map =>
        obtain ⟨key, value, k, v, hkey, hvalue, hk, hv, rfl⟩ := (typeOf_map htype).mp ha
        exact map_returns htype hkey hvalue (ihChild hkey) (ihChild hvalue) hk hv name nullable
      | _ =>
        rw [htype] at hstructural
        cases hstructural

/-! ## The whole schema -/

theorem exists_mem_zip {f : Lakehouse.Field} (hlength : gs.length = fields.length)
    (hf : f ∈ fields) : ∃ g, (f, g) ∈ fields.zip gs := by
  obtain ⟨i, hi, rfl⟩ := List.getElem_of_mem hf
  have hi' : i < (fields.zip gs).length := by
    rw [List.length_zip]
    omega
  have hmem := List.getElem_mem hi'
  rw [List.getElem_zip] at hmem
  exact ⟨_, hmem⟩

/-- Every visited node has a counterpart. -/
theorem corresponds_of_visits {n : Schema} (h : Visits s n) (hnodes : ∀ nullable' n m,
      Corresponds nullable s t nullable' n m → SameNode nullable' n m) :
    ∃ nullable' m, Corresponds nullable s t nullable' n m := by
  induction h generalizing t nullable with
  | here => exact ⟨nullable, t, .here⟩
  | @field s n f hrecord hf _ ih =>
    have hnames := congrArg List.length ((hnodes _ _ _ .here).names hrecord)
    rw [List.length_map, List.length_map] at hnames
    obtain ⟨g, hfg⟩ := exists_mem_zip hnames hf
    obtain ⟨nullable', m, hm⟩ := ih fun _ _ _ h => hnodes _ _ _ (.field hrecord hfg h)
    exact ⟨nullable', m, .field hrecord hfg hm⟩
  | @part s c n child hchild hc _ ih =>
    obtain ⟨d, hd⟩ := (hnodes _ _ _ .here).parts child hchild
    obtain ⟨nullable', m, hm⟩ := ih fun _ _ _ h => hnodes _ _ _ (.part hchild hc hd h)
    exact ⟨nullable', m, .part hchild hc hd hm⟩

/-- **A schema comes back from its Arrow columns.** A record of which every node was built has Arrow
columns exactly if every visited node has the parts that it must have and numbers that Arrow can
hold. From the columns a schema comes back that has the same leaf paths and the same columns again.
Every visited node has a counterpart in it, of the same type, except that symbols and identifiers
have become text; with the numbers of this type; and as nullable as it was, except that the record
and the keys of maps are never null. -/
theorem schema_returns (s : Schema) (hrecord : s.type = .record)
    (hbuilt : s.Everywhere Schema.IsBuilt) :
    ((∃ a, columns s = .ok a) ↔ ∀ n, Visits s n → Fits n) ∧
    ∀ (a : List Field) (name : String), columns s = .ok a →
      ∃ t, schema name a = .ok t ∧ t.leafPaths = s.leafPaths ∧ columns t = .ok a ∧
        (∀ nullable n m, Corresponds false s t nullable n m → SameNode nullable n m) ∧
        ∀ n, Visits s n → ∃ nullable m, Corresponds false s t nullable n m := by
  refine ⟨columns_ok_iff hrecord hbuilt, fun a name ha => ?_⟩
  rw [columns, if_pos hrecord] at ha
  obtain ⟨t, ht, htype, hagain, hreturned⟩ := record_returns hbuilt.root hrecord
    (fun f hf => ofType_typeOf (hbuilt.field hf)) ha name false
  refine ⟨t, ht, hreturned.paths hrecord "", ?_, hreturned.nodes, fun n hn => ?_⟩
  · rw [columns, if_pos htype, hagain]
  · exact corresponds_of_visits hn hreturned.nodes

/-- A map from symbols to lists of decimals, next to an identifier. -/
theorem schema_returns_nested :
    let leaf (name : String) (type : Lakehouse.DataType) (nullable : Bool) (m : Metadata) :=
      Schema.mk name type none nullable [] m
    let price := leaf "element" .decimal false (decimalMetadata 38 4)
    let prices : Schema := ⟨"value", .list, none, true, [⟨"element", none, price⟩], .empty⟩
    let byKind : Schema := ⟨"prices", .map, none, true,
      [⟨"key", none, leaf "key" .enumeration true .empty⟩, ⟨"value", none, prices⟩], .empty⟩
    let s : Schema := ⟨"trips", .record, none, true,
      [⟨"id", some 1, leaf "id" .uuid false .empty⟩, ⟨"prices", some 2, byKind⟩], .empty⟩
    s.type = .record ∧ s.Everywhere Schema.IsBuilt ∧ ∃ a, columns s = .ok a ∧
      ∃ t, schema "trips" a = .ok t ∧ t.leafPaths = ["id", "prices"] ∧ columns t = .ok a := by
  intro leaf price prices byKind s
  have hbuilt : s.Everywhere Schema.IsBuilt := by decide +kernel
  have hcolumns : (columns s).toOption.isSome = true := by decide +kernel
  have hpaths : s.leafPaths = ["id", "prices"] := by cbv
  cases ha : columns s with
  | error f =>
    rw [ha] at hcolumns
    cases hcolumns
  | ok a =>
    obtain ⟨t, ht, hleaf, hagain, -⟩ := (schema_returns s rfl hbuilt).2 a "trips" ha
    exact ⟨rfl, hbuilt, a, rfl, t, ht, hleaf.trans hpaths, hagain⟩

/-- An entry that does not belong to the type of its node does not come back: here a column of bytes
says how many they are, and what comes back no longer does. -/
theorem schema_drops_stray_size :
    let id : Schema := ⟨"id", .bytes, none, true, [],
      Metadata.empty.set .fixedBytesSize (.number 16)⟩
    let s : Schema := ⟨"trips", .record, none, false, [⟨"id", none, id⟩], .empty⟩
    s.type = .record ∧ s.Everywhere Schema.IsBuilt ∧ ∃ a t, columns s = .ok a ∧
      schema "trips" a = .ok t ∧ ∃ c, Corresponds false s t true id c ∧
        id.fixedSize? = some 16 ∧ c.fixedSize? = none := by
  intro id s
  refine ⟨rfl, by decide +kernel, [.mk "id" (.plain .binary) true],
    ⟨"trips", .record, none, false, [⟨"id", none, ⟨"id", .bytes, none, true, [], .empty⟩⟩], .empty⟩,
    rfl, rfl, ⟨"id", .bytes, none, true, [], .empty⟩, ?_, rfl, rfl⟩
  exact .field rfl (List.mem_singleton_self _) .here

end Lakehouse.Arrow
