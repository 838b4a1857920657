import Lakehouse.Proofs.Schema.Path
import Lakehouse.Schema.Builder

/-!
# Leaves in the order of their declaration

A leaf is a field that is no record and that records only lead to. Where it stands is told by
position, which says on each level how many fields are declared before it, so two leaves that look
alike are still two. In the lexicographic order of positions a leaf comes before another exactly if
it is declared before it.

* `Schema.Stands`: the field at a position, with the names on the way to it.
* `Schema.leavesIn`: the leaves of some fields; `Schema.mem_leavesIn` and
  `Schema.pairwise_leavesIn`: these are all, in their order.
* `Schema.leafPathsIn_eq`: the listed paths are theirs.
* `Schema.leafPaths_find_leaves`: listing the paths and looking them up are inverse.

About `leaf_paths` and `find_field`, which are modelled in `Schema.Basic`.
-/

namespace Lakehouse.Schema

/-! ## Positions -/

/-- The field at a position, with the names on the way to it, which leads through records only. -/
inductive Stands : List Field → List Nat → List String → Field → Prop where
  | here {fields : List Field} {i : Nat} {f : Field} (hf : fields[i]? = some f) :
      Stands fields [i] [f.name] f
  | within {fields : List Field} {i : Nat} {is : List Nat} {g f : Field} {names : List String}
      (hg : fields[i]? = some g) (hrecord : g.schema.type = .record)
      (h : Stands g.schema.fields is names f) : Stands fields (i :: is) (g.name :: names) f

variable {fields : List Field} {position other : List Nat} {names : List String} {f g : Field}
  {s : Schema}

/-- What stands at a position is reached by the names on the way. -/
theorem Stands.reachesIn (h : Stands fields position names f) : ReachesIn fields names f := by
  induction h with
  | here hf => exact .here (List.mem_of_getElem? hf)
  | within hg hrecord _ ih => exact .within (List.mem_of_getElem? hg) hrecord ih

theorem Stands.position_ne_nil (h : Stands fields position names f) : position ≠ [] := by
  cases h <;> exact List.cons_ne_nil _ _

theorem Stands.names_ne_nil (h : Stands fields position names f) : names ≠ [] := by
  cases h <;> exact List.cons_ne_nil _ _

/-- Where no two fields have one name, the name tells the index of a field. -/
theorem index_unique (hnames : (fields.map (·.name)).Nodup) {i j : Nat}
    (hi : fields[i]? = some f) (hj : fields[j]? = some g) (hname : f.name = g.name) : i = j := by
  have hlength : i < (fields.map (·.name)).length := by
    rw [List.length_map]
    exact (List.getElem?_eq_some_iff.mp hi).1
  rw [← List.getElem?_inj hlength hnames]
  simp [hi, hj, hname]

/-- **Names lead to one position only** in a schema that was built. -/
theorem Stands.position_unique (h : Stands fields position names f)
    (h' : Stands fields other names g) (hnames : (fields.map (·.name)).Nodup)
    (hbuilt : ∀ k ∈ fields, k.schema.Everywhere IsBuilt) : position = other := by
  induction h generalizing other with
  | @here fields i f hf =>
    generalize hway : [f.name] = way at h'
    cases h' with
    | here hg => rw [index_unique hnames hf hg (List.cons.inj hway).1]
    | within _ _ hbelow => exact absurd (List.cons.inj hway).2.symm hbelow.names_ne_nil
  | @within fields i is k f names hk hrecord hbelow ih =>
    generalize hway : k.name :: names = way at h'
    cases h' with
    | here => exact absurd (List.cons.inj hway).2 hbelow.names_ne_nil
    | within hk' _ hbelow' =>
      obtain ⟨hname, rfl⟩ := List.cons.inj hway
      obtain rfl := index_unique hnames hk hk' hname
      cases hk.symm.trans hk'
      have hsub := hbuilt k (List.mem_of_getElem? hk)
      rw [ih hbelow' (nodup_names_of_build hsub.root hrecord) fun m hm => hsub.field hm]

/-! ## Leaves -/

/-- A field, where it stands, and the names on the way to it. -/
structure Leaf where
  position : List Nat
  names : List String
  field : Field

namespace Leaf

/-- The names on the way to a leaf, with dots between them. -/
def path (l : Leaf) : String := String.intercalate "." l.names

/-- A leaf of some fields stands among them and is no record. -/
structure IsOf (l : Leaf) (fields : List Field) : Prop where
  stands : Stands fields l.position l.names l.field
  flat : l.field.schema.type ≠ .record

/-- The leaf that a field is. -/
def only (f : Field) : Leaf := ⟨[0], [f.name], f⟩

/-- A leaf below the first field, which is a record of that name. -/
def under (name : String) (l : Leaf) : Leaf := ⟨0 :: l.position, name :: l.names, l.field⟩

/-- A leaf with one more field in front. -/
def later (l : Leaf) : Leaf := ⟨l.position.modifyHead (· + 1), l.names, l.field⟩

/-- A leaf is the first field, or below it if that is a record, or among the others. -/
theorem isOf_cons {l : Leaf} : l.IsOf (g :: fields) ↔
    (g.schema.type ≠ .record ∧ only g = l) ∨
    (g.schema.type = .record ∧ ∃ k : Leaf, k.IsOf g.schema.fields ∧ k.under g.name = l) ∨
    ∃ k : Leaf, k.IsOf fields ∧ k.later = l := by
  constructor
  · rintro ⟨hstands, hflat⟩
    obtain ⟨position, names, f⟩ := l
    change Stands (g :: fields) position names f at hstands
    cases hstands with
    | @here _ i _ hf =>
      cases i with
      | zero =>
        cases hf
        exact .inl ⟨hflat, rfl⟩
      | succ i => exact .inr (.inr ⟨⟨[i], _, f⟩, ⟨.here hf, hflat⟩, rfl⟩)
    | @within _ i is _ _ names hg hrecord h =>
      cases i with
      | zero =>
        cases hg
        exact .inr (.inl ⟨hrecord, ⟨is, names, f⟩, ⟨h, hflat⟩, rfl⟩)
      | succ i => exact .inr (.inr ⟨⟨i :: is, _, f⟩, ⟨.within hg hrecord h, hflat⟩, rfl⟩)
  · rintro (⟨hflat, rfl⟩ | ⟨hrecord, k, ⟨hstands, hflat⟩, rfl⟩ | ⟨k, ⟨hstands, hflat⟩, rfl⟩)
    · exact ⟨.here rfl, hflat⟩
    · exact ⟨.within rfl hrecord hstands, hflat⟩
    · obtain ⟨position, names, f⟩ := k
      change Stands fields position names f at hstands
      refine ⟨?_, hflat⟩
      cases hstands with
      | here hf => exact .here hf
      | within hg hrecord h => exact .within hg hrecord h

end Leaf

/-- The leaves of some fields, field by field. -/
def leavesIn : List Field → List Leaf
  | [] => []
  | ⟨name, id, ⟨n, type, comment, nullable, fields, metadata⟩⟩ :: rest =>
    (if type = .record then (leavesIn fields).map (Leaf.under name)
      else [.only ⟨name, id, ⟨n, type, comment, nullable, fields, metadata⟩⟩])
      ++ (leavesIn rest).map Leaf.later

/-- **The listed leaves are all leaves.** -/
theorem mem_leavesIn {l : Leaf} : l ∈ leavesIn fields ↔ l.IsOf fields := by
  induction fields using leavesIn.induct generalizing l with
  | case1 =>
    simp only [leavesIn, List.not_mem_nil, false_iff]
    rintro ⟨hstands, -⟩
    exact not_reachesIn_nil hstands.reachesIn
  | case2 name id n type c u below m rest ih ihRest =>
    rw [Leaf.isOf_cons, leavesIn, List.mem_append, List.mem_map]
    simp only [ihRest]
    by_cases hrecord : type = .record
    · simp [hrecord, ih]
    · simp [hrecord, eq_comm]

theorem modifyHead_lt {a b : List Nat} (h : a < b) :
    a.modifyHead (· + 1) < b.modifyHead (· + 1) := by
  cases b with
  | nil => exact absurd h (List.not_lt_nil a)
  | cons j js =>
    cases a with
    | nil => exact List.nil_lt_cons _ _
    | cons i is =>
      simp only [List.modifyHead_cons, List.cons_lt_cons_iff] at h ⊢
      exact h.imp Nat.succ_lt_succ (And.imp_left (congrArg (· + 1)))

/-- **The leaves are listed in the order in which they are declared.** -/
theorem pairwise_leavesIn (fields : List Field) :
    (leavesIn fields).Pairwise fun k l => k.position < l.position := by
  induction fields using leavesIn.induct with
  | case1 =>
    rw [leavesIn]
    exact List.Pairwise.nil
  | case2 name id n type c u below m rest ih ihRest =>
    have hlater : ((leavesIn rest).map Leaf.later).Pairwise fun k l => k.position < l.position :=
      List.pairwise_map.mpr (ihRest.imp modifyHead_lt)
    have hbehind : ∀ is, ∀ l ∈ (leavesIn rest).map Leaf.later, 0 :: is < l.position := by
      intro is l hl
      obtain ⟨k, hk, rfl⟩ := List.mem_map.mp hl
      obtain ⟨i, more, hposition⟩ :=
        List.exists_cons_of_ne_nil (mem_leavesIn.mp hk).stands.position_ne_nil
      rw [Leaf.later, hposition]
      exact List.cons_lt_cons_iff.mpr (.inl (Nat.succ_pos i))
    rw [leavesIn]
    refine List.pairwise_append.mpr ⟨?_, hlater, ?_⟩
    · split
      · exact List.pairwise_map.mpr (ih.imp fun h => List.cons_lt_cons_iff.mpr (.inr ⟨rfl, h⟩))
      · exact List.pairwise_singleton _ _
    · intro k hk
      split at hk
      · obtain ⟨k, -, rfl⟩ := List.mem_map.mp hk
        exact hbehind k.position
      · rw [List.mem_singleton.mp hk]
        exact hbehind []

/-- **The listed paths are those of the leaves**, in their order. -/
theorem leafPathsIn_eq (above : String) (fields : List Field) :
    leafPathsIn above fields = (leavesIn fields).map fun l => l.names.foldl extend above := by
  induction above, fields using leafPathsIn.induct with
  | case1 =>
    rw [leafPathsIn, leavesIn]
    rfl
  | case2 above name id n type c u below m rest ih ihRest =>
    rw [leafPathsIn, leavesIn, List.map_append, List.map_map, ih, ihRest]
    congr 1
    split
    · rw [List.map_map]
      rfl
    · rfl

/-- The leaves of a schema. -/
def leaves (s : Schema) : List Leaf := leavesIn s.fields

/-- The path of a leaf is what its names are put together to. -/
theorem Leaf.IsOf.foldl_extend {l : Leaf} (h : l.IsOf s.fields)
    (hplain : s.Everywhere HasPlainNames) : l.names.foldl extend "" = l.path := by
  obtain ⟨hne, hnames⟩ :=
    h.stands.reachesIn.plainNames fun g hg => ⟨hplain.root g hg, hplain.field hg⟩
  exact foldl_extend_empty hne hnames

theorem Leaf.IsOf.segments_path {l : Leaf} (h : l.IsOf s.fields)
    (hplain : s.Everywhere HasPlainNames) : segments l.path = l.names := by
  obtain ⟨hne, hnames⟩ :=
    h.stands.reachesIn.plainNames fun g hg => ⟨hplain.root g hg, hplain.field hg⟩
  exact segments_intercalate hne hnames

theorem leafPaths_eq (hplain : s.Everywhere HasPlainNames) :
    s.leafPaths = s.leaves.map Leaf.path := by
  unfold leafPaths leaves
  rw [leafPathsIn_eq]
  exact List.map_congr_left fun l hl => (mem_leavesIn.mp hl).foldl_extend hplain

/-- A leaf is found by its path. -/
theorem Leaf.IsOf.find? {l : Leaf} (h : l.IsOf s.fields) (hrecord : s.type = .record)
    (hbuilt : s.Everywhere IsBuilt) (hplain : s.Everywhere HasPlainNames) :
    s.find? l.path = some l.field := by
  unfold Schema.find?
  rw [h.segments_path hplain]
  exact findIn_of_reachesIn h.stands.reachesIn (nodup_names_of_build hbuilt.root hrecord)
    fun g hg => hbuilt.field hg

/-- No two leaves have one path. -/
theorem nodup_paths (hrecord : s.type = .record) (hbuilt : s.Everywhere IsBuilt)
    (hplain : s.Everywhere HasPlainNames) : (s.leaves.map Leaf.path).Nodup := by
  refine List.pairwise_map.mpr ((pairwise_leavesIn s.fields).imp_of_mem ?_)
  intro k l hk hl hless hpath
  have hk := mem_leavesIn.mp hk
  have hl := mem_leavesIn.mp hl
  have hnames : k.names = l.names := by
    rw [← hk.segments_path hplain, hpath, hl.segments_path hplain]
  have hstands := hk.stands
  rw [hnames] at hstands
  have hsame := hstands.position_unique hl.stands (nodup_names_of_build hbuilt.root hrecord)
    fun g hg => hbuilt.field hg
  rw [hsame] at hless
  exact List.lt_irrefl _ hless

/-- **Listing the paths of the leaves and looking them up are inverse.** The listed paths are those
of all leaves in the order of their declaration, without repetition; the path of each leaf leads to
it; and the paths that are looked up through records only, to a field that is none, are listed. -/
theorem leafPaths_find_leaves (hrecord : s.type = .record) (hbuilt : s.Everywhere IsBuilt)
    (hplain : s.Everywhere HasPlainNames) :
    ∃ leaves : List Leaf,
      (∀ l, l ∈ leaves ↔ l.IsOf s.fields) ∧
      leaves.Pairwise (fun k l => k.position < l.position) ∧
      s.leafPaths = leaves.map Leaf.path ∧
      s.leafPaths.Nodup ∧
      (∀ l ∈ leaves, s.find? l.path = some l.field) ∧
      ∀ path, path ∈ s.leafPaths ↔ ∃ f, s.find? path = some f ∧
        ReachesIn s.fields (segments path) f ∧ f.schema.type ≠ .record := by
  refine ⟨s.leaves, fun l => mem_leavesIn, pairwise_leavesIn s.fields, leafPaths_eq hplain,
    leafPaths_eq hplain ▸ nodup_paths hrecord hbuilt hplain,
    fun l hl => (mem_leavesIn.mp hl).find? hrecord hbuilt hplain, fun path => ⟨?_, ?_⟩⟩
  · intro hpath
    rw [leafPaths_eq hplain] at hpath
    obtain ⟨l, hl, rfl⟩ := List.mem_map.mp hpath
    have hl := mem_leavesIn.mp hl
    refine ⟨l.field, hl.find? hrecord hbuilt hplain, ?_, hl.flat⟩
    rw [hl.segments_path hplain]
    exact hl.stands.reachesIn
  · rintro ⟨f, hfind, hreaches, hflat⟩
    exact (mem_leafPaths_iff hrecord hbuilt hplain hfind hflat).mpr hreaches

/-- People with two places that are alike but for a list in the second one. -/
def people : Schema :=
  let leaf (name : String) (type : DataType) : Field := ⟨name, none, blank name type⟩
  let tags : Field := ⟨"tags", none, (blank "tags" .list).addFields [leaf "element" .string]⟩
  let place (fields : List Field) : Schema := (blank "place" .record).addFields fields
  (blank "people" .record).addFields
    [⟨"home", none, place [leaf "city" .string]⟩, ⟨"id", some 7, blank "id" .long⟩,
      ⟨"work", none, place [tags, leaf "city" .string]⟩]

/-- Two leaves that are equal as fields have a path each, and the elements of a list have none. -/
theorem leafPaths_find_leaves_alike :
    people.type = .record ∧ people.Everywhere IsBuilt ∧ people.Everywhere HasPlainNames ∧
    people.leafPaths = ["home.city", "id", "work.tags", "work.city"] ∧
    people.leafPaths.Nodup ∧
    people.find? "home.city" = people.find? "work.city" ∧
    (people.find? "work.tags.element").isSome = true ∧ "work.tags.element" ∉ people.leafPaths ∧
    ∃ leaves : List Leaf, people.leafPaths = leaves.map Leaf.path ∧
      ∀ l ∈ leaves, people.find? l.path = some l.field := by
  have hbuilt : people.Everywhere IsBuilt := by decide +kernel
  have hplain : people.Everywhere HasPlainNames := by decide +kernel
  have hpaths : people.leafPaths = ["home.city", "id", "work.tags", "work.city"] := by
    simp [people, addFields, blank, leafPaths, leafPathsIn, extend]
  obtain ⟨leaves, -, -, hleaves, hnodup, hfind, -⟩ := leafPaths_find_leaves rfl hbuilt hplain
  exact ⟨rfl, hbuilt, hplain, hpaths, hnodup, by decide +kernel, by decide +kernel,
    by rw [hpaths]; decide, leaves, hleaves, hfind⟩

end Lakehouse.Schema
