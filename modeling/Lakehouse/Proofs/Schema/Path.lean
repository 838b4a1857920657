import Lakehouse.Proofs.Schema.Built
import Lakehouse.Proofs.Text.Cut

/-!
# Paths through records

A path leads from record to record down to a field. Looking a path up asks less: it goes on below
any node that has fields, whatever its type. The listed columns are the fields that paths through
records lead to and that are no records.

* `Schema.ReachesIn`: the field that names lead to, through records only.
* `Schema.findIn_of_reachesIn`: in a schema that was built the field is the one looked up.
* `Schema.mem_leafPathsIn`: which paths are listed below a path.
* `Schema.mem_leafPaths_iff`: a path that is looked up is listed exactly if records only are on it.
-/

namespace Lakehouse.Schema

/-! ## Through records -/

/-- The field that names lead to, through records only. -/
inductive ReachesIn : List Field → List String → Field → Prop where
  | here {fields : List Field} {f : Field} (hf : f ∈ fields) : ReachesIn fields [f.name] f
  | within {fields : List Field} {g f : Field} {names : List String} (hg : g ∈ fields)
      (hrecord : g.schema.type = .record) (h : ReachesIn g.schema.fields names f) :
      ReachesIn fields (g.name :: names) f

variable {fields : List Field} {names : List String} {f g : Field} {s : Schema} {path : String}

theorem not_reachesIn_nil : ¬ ReachesIn [] names f := by
  intro h
  cases h with
  | here hf => cases hf
  | within hg => cases hg

/-- A path starts at the first field, where it ends or goes on into a record, or at a later one. -/
theorem reachesIn_cons : ReachesIn (g :: fields) names f ↔
    (names = [g.name] ∧ f = g) ∨
    (g.schema.type = .record ∧ ∃ rest, names = g.name :: rest ∧
      ReachesIn g.schema.fields rest f) ∨
    ReachesIn fields names f := by
  constructor
  · intro h
    cases h with
    | here hf =>
      rcases List.mem_cons.mp hf with rfl | hf
      · exact .inl ⟨rfl, rfl⟩
      · exact .inr (.inr (.here hf))
    | within hg hrecord h =>
      rcases List.mem_cons.mp hg with rfl | hg
      · exact .inr (.inl ⟨hrecord, _, rfl, h⟩)
      · exact .inr (.inr (.within hg hrecord h))
  · rintro (⟨rfl, rfl⟩ | ⟨hrecord, rest, rfl, h⟩ | h)
    · exact .here List.mem_cons_self
    · exact .within List.mem_cons_self hrecord h
    · cases h with
      | here hf => exact .here (List.mem_cons_of_mem g hf)
      | within hg hrecord h => exact .within (List.mem_cons_of_mem g hg) hrecord h

theorem find?_name (hnames : (fields.map (·.name)).Nodup) (hf : f ∈ fields) :
    fields.find? (·.name == f.name) = some f := by
  induction fields with
  | nil => cases hf
  | cons g rest ih =>
    rw [List.map_cons, List.nodup_cons] at hnames
    rcases List.mem_cons.mp hf with rfl | hf
    · exact List.find?_cons_of_pos (beq_self_eq_true _)
    · have hne : g.name ≠ f.name := fun heq => hnames.1 (heq ▸ List.mem_map_of_mem hf)
      simp only [List.find?_cons, beq_eq_false_iff_ne.mpr hne]
      exact ih hnames.2 hf

/-- **In a schema that was built, the field that names lead to is the one looked up.** -/
theorem findIn_of_reachesIn (h : ReachesIn fields names f)
    (hnames : (fields.map (·.name)).Nodup)
    (hbuilt : ∀ g ∈ fields, g.schema.Everywhere IsBuilt) : findIn fields names = some f := by
  induction h with
  | here hf => exact find?_name hnames hf
  | @within fields g f names hg hrecord h ih =>
    have hsub := hbuilt g hg
    have hrest := ih (nodup_names_of_build hsub.root hrecord) fun k hk => hsub.field hk
    cases h with
    | here | within =>
      simp only [findIn]
      rw [find?_name hnames hg]
      exact hrest

/-! ## The listed paths -/

/-- **The listed paths are those that lead through records to a field that is none.** -/
theorem mem_leafPathsIn {above : String} : path ∈ leafPathsIn above fields ↔
    ∃ names f, ReachesIn fields names f ∧ f.schema.type ≠ .record ∧
      path = names.foldl extend above := by
  induction above, fields using leafPathsIn.induct generalizing path with
  | case1 above =>
    simp only [leafPathsIn, List.not_mem_nil, false_iff]
    rintro ⟨names, f, h, -⟩
    exact not_reachesIn_nil h
  | case2 above name id n type c u fields m rest ih ihRest =>
    simp only [leafPathsIn, List.mem_append, ihRest]
    constructor
    · rintro (h | ⟨names, f, h, hleaf, rfl⟩)
      · by_cases hrecord : type = .record
        · rw [if_pos hrecord, ih] at h
          obtain ⟨names, f, h, hleaf, rfl⟩ := h
          exact ⟨name :: names, f, reachesIn_cons.mpr (.inr (.inl ⟨hrecord, names, rfl, h⟩)),
            hleaf, rfl⟩
        · rw [if_neg hrecord, List.mem_singleton] at h
          exact ⟨[name], _, reachesIn_cons.mpr (.inl ⟨rfl, rfl⟩), hrecord, h⟩
      · exact ⟨names, f, reachesIn_cons.mpr (.inr (.inr h)), hleaf, rfl⟩
    · rintro ⟨names, f, h, hleaf, rfl⟩
      rcases reachesIn_cons.mp h with ⟨rfl, rfl⟩ | ⟨hrecord, inner, rfl, hinner⟩ | hrest
      · rw [if_neg hleaf]
        exact .inl (List.mem_singleton.mpr rfl)
      · rw [if_pos hrecord]
        exact .inl (ih.mpr ⟨inner, f, hinner, hleaf, rfl⟩)
      · exact .inr ⟨names, f, hrest, hleaf, rfl⟩

/-! ## Names and their path -/

/-- A name that can stand on a path: it is not empty and has no dot. -/
def PlainName (name : String) : Prop := name ≠ "" ∧ '.' ∉ name.toList

/-- The fields of a node have names that can stand on a path. -/
def HasPlainNames (s : Schema) : Prop := ∀ f ∈ s.fields, PlainName f.name

instance : DecidablePred PlainName := fun _ => instDecidableAnd

instance : DecidablePred HasPlainNames := fun s =>
  inferInstanceAs (Decidable (∀ f ∈ s.fields, PlainName f.name))

/-- All names on a path are names of fields. -/
theorem ReachesIn.plainNames (h : ReachesIn fields names f)
    (hplain : ∀ g ∈ fields, PlainName g.name ∧ g.schema.Everywhere HasPlainNames) :
    names ≠ [] ∧ ∀ name ∈ names, PlainName name := by
  induction h with
  | here hf =>
    refine ⟨List.cons_ne_nil _ _, fun name hname => ?_⟩
    rw [List.mem_singleton.mp hname]
    exact (hplain _ hf).1
  | within hg _ _ ih =>
    obtain ⟨hname, hbelow⟩ := hplain _ hg
    have hrest := (ih fun k hk => ⟨hbelow.root k hk, hbelow.field hk⟩).2
    refine ⟨List.cons_ne_nil _ _, fun name hmem => ?_⟩
    rcases List.mem_cons.mp hmem with rfl | hmem
    · exact hname
    · exact hrest name hmem

theorem foldl_extend {above : String} (habove : above ≠ "") (names : List String) :
    names.foldl extend above = String.intercalate "." (above :: names) := by
  induction names generalizing above with
  | nil => rfl
  | cons name names ih =>
    have hnext : extend above name = above ++ "." ++ name := if_neg habove
    have hne : above ++ "." ++ name ≠ "" := by simp
    rw [List.foldl_cons, hnext, ih hne]
    rfl

/-- The path of some names is the names with dots between them. -/
theorem foldl_extend_empty (hne : names ≠ []) (hplain : ∀ name ∈ names, PlainName name) :
    names.foldl extend "" = String.intercalate "." names := by
  obtain ⟨name, rest, rfl⟩ := List.exists_cons_of_ne_nil hne
  rw [List.foldl_cons, show extend "" name = name from if_pos rfl,
    foldl_extend (hplain name List.mem_cons_self).1]

/-- The names on the path of some names are these names. -/
theorem segments_intercalate (hne : names ≠ []) (hplain : ∀ name ∈ names, PlainName name) :
    segments (String.intercalate "." names) = names :=
  Text.pieces_intercalate hne fun name hname => (hplain name hname).2

/-- A path is its names with dots between them. -/
theorem intercalate_segments (path : String) : String.intercalate "." (segments path) = path := by
  unfold segments Text.pieces
  rw [← String.toList_inj, String.toList_intercalate, List.map_map]
  have hparts : String.toList ∘ String.ofList = id := funext fun cs => String.toList_ofList
  rw [hparts, List.map_id]
  exact List.intercalate_splitOn '.'

/-- **A path that is looked up is listed exactly if it leads through records only.** -/
theorem mem_leafPaths_iff (hrecord : s.type = .record) (hbuilt : s.Everywhere IsBuilt)
    (hplain : s.Everywhere HasPlainNames) (hfind : s.find? path = some f)
    (hleaf : f.schema.type ≠ .record) :
    path ∈ s.leafPaths ↔ ReachesIn s.fields (segments path) f := by
  have hbelow : ∀ g ∈ s.fields, PlainName g.name ∧ g.schema.Everywhere HasPlainNames :=
    fun g hg => ⟨hplain.root g hg, hplain.field hg⟩
  unfold leafPaths
  rw [mem_leafPathsIn]
  constructor
  · rintro ⟨names, g, h, -, rfl⟩
    obtain ⟨hne, hnames⟩ := h.plainNames hbelow
    rw [foldl_extend_empty hne hnames] at hfind ⊢
    unfold find? at hfind
    rw [segments_intercalate hne hnames] at hfind ⊢
    rw [findIn_of_reachesIn h (nodup_names_of_build hbuilt.root hrecord) fun g hg =>
      hbuilt.field hg] at hfind
    cases hfind
    exact h
  · intro h
    obtain ⟨hne, hnames⟩ := h.plainNames hbelow
    refine ⟨segments path, f, h, hleaf, ?_⟩
    rw [foldl_extend_empty hne hnames, intercalate_segments]

end Lakehouse.Schema
