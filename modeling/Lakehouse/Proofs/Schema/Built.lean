import Lakehouse.Proofs.Except
import Lakehouse.Schema.Basic

/-!
# Trees of built nodes

A schema is a tree, and what is promised of it is mostly promised of each of its nodes.

* `Schema.Everywhere`: a property of a node and of all nodes below it.
* `Schema.IsBuilt`: a node that was assembled, and so has passed the checks of its type.
* `Schema.nodup_names_of_build`: no two fields of a record that was built have one name.
-/

namespace Lakehouse.Schema

/-- A property that a node has, and every node below it. -/
inductive Everywhere (P : Schema → Prop) : Schema → Prop where
  | node {s : Schema} (here : P s) (below : ∀ f ∈ s.fields, Everywhere P f.schema) :
      Everywhere P s

variable {P : Schema → Prop} {s : Schema}

theorem Everywhere.root (h : s.Everywhere P) : P s := by
  cases h with
  | node here _ => exact here

theorem Everywhere.field (h : s.Everywhere P) {f : Field} (hf : f ∈ s.fields) :
    f.schema.Everywhere P := by
  cases h with
  | node _ below => exact below f hf

/-! ## Checking all nodes -/

mutual

/-- Whether a test holds of a node and of all nodes below it. -/
def allNodes (test : Schema → Bool) (s : Schema) : Bool :=
  match s with
  | ⟨name, type, comment, nullable, fields, metadata⟩ =>
    test ⟨name, type, comment, nullable, fields, metadata⟩ && allFields test fields

/-- Whether a test holds of all nodes of some fields. -/
def allFields (test : Schema → Bool) : List Field → Bool
  | [] => true
  | ⟨_, _, s⟩ :: rest => allNodes test s && allFields test rest

end

theorem allFields_iff {test : Schema → Bool} {fields : List Field} :
    allFields test fields = true ↔ ∀ f ∈ fields, f.schema.allNodes test = true := by
  induction fields with
  | nil => simp [allFields]
  | cons f rest ih =>
    cases f
    rw [allFields, Bool.and_eq_true, ih, List.forall_mem_cons]

theorem allNodes_iff_fields {test : Schema → Bool} :
    s.allNodes test = true ↔ test s = true ∧ ∀ f ∈ s.fields, f.schema.allNodes test = true := by
  cases s
  rw [← allFields_iff, ← Bool.and_eq_true, allNodes]

theorem sizeOf_field_lt {f : Field} (hf : f ∈ s.fields) : sizeOf f.schema < sizeOf s := by
  have hmem := List.sizeOf_lt_of_mem hf
  cases s
  cases f
  simp at hmem ⊢
  omega

/-- What holds of a node if it holds of the nodes below it holds of every node. -/
theorem fieldwise {motive : Schema → Prop}
    (step : ∀ s : Schema, (∀ f ∈ s.fields, motive f.schema) → motive s) (s : Schema) : motive s :=
  step s fun f _ => fieldwise step f.schema
termination_by s
decreasing_by exact sizeOf_field_lt ‹_›

theorem everywhere_of_allNodes {test : Schema → Bool} (s : Schema) (h : s.allNodes test = true) :
    s.Everywhere (test · = true) := by
  induction s using fieldwise with
  | step s ih =>
    have hnode := allNodes_iff_fields.mp h
    exact .node hnode.1 fun f hf => ih f hf (hnode.2 f hf)

theorem allNodes_iff {test : Schema → Bool} :
    s.allNodes test = true ↔ s.Everywhere (test · = true) := by
  constructor
  · exact everywhere_of_allNodes s
  · intro h
    induction h with
    | node here _ ih => exact allNodes_iff_fields.mpr ⟨here, ih⟩

instance [DecidablePred P] : Decidable (s.Everywhere P) :=
  decidable_of_iff (s.allNodes fun node => decide (P node)) (by simp [allNodes_iff])

/-! ## Nodes that were built -/

/-- A node that was assembled from a draft of it. -/
def IsBuilt (s : Schema) : Prop := ∃ draft : Schema, draft.build = .ok s

theorem build_eq_ok {draft : Schema} :
    draft.build = .ok s ↔ draft.complete = .ok s ∧ s.checkNames = .ok () := by
  unfold build assemble
  rw [mapError_eq_ok, bind_eq_ok]
  constructor
  · rintro ⟨completed, hcomplete, h⟩
    obtain ⟨_, hnames, h⟩ := bind_eq_ok.mp h
    cases h
    exact ⟨hcomplete, hnames⟩
  · rintro ⟨hcomplete, hnames⟩
    exact ⟨s, hcomplete, bind_eq_ok.mpr ⟨(), hnames, rfl⟩⟩

theorem completeTimestamp_self {draft : Schema} (h : draft.completeTimestamp = .ok s) :
    s.type = draft.type ∧ s.completeTimestamp = .ok s := by
  unfold completeTimestamp at h
  split at h
  · cases h
    exact ⟨rfl, rfl⟩
  · rename_i p hp
    cases h
    exact ⟨rfl, by simp [completeTimestamp, hp]⟩
  · cases h

/-- A node that is complete is completed to itself. -/
theorem complete_self {draft : Schema} (h : draft.complete = .ok s) : s.complete = .ok s := by
  have hcomplete := h
  unfold complete at h
  split at h
  · obtain ⟨_, -, h⟩ := bind_eq_ok.mp h
    cases h
    exact hcomplete
  · rename_i htype
    obtain ⟨hsame, hself⟩ := completeTimestamp_self h
    simp [complete, hsame, htype, hself]
  · rename_i htype
    obtain ⟨hsame, hself⟩ := completeTimestamp_self h
    simp [complete, hsame, htype, hself]
  · obtain ⟨_, -, h⟩ := bind_eq_ok.mp h
    cases h
    exact hcomplete
  · cases h
    exact hcomplete

/-- A node was built exactly if it is built from itself. -/
theorem isBuilt_iff : s.IsBuilt ↔ s.build = .ok s := by
  constructor
  · rintro ⟨draft, h⟩
    obtain ⟨hcomplete, hnames⟩ := build_eq_ok.mp h
    exact build_eq_ok.mpr ⟨complete_self hcomplete, hnames⟩
  · exact fun h => ⟨s, h⟩

instance : DecidablePred IsBuilt := fun s => decidable_of_iff (s.build.toOption = some s) <| by
  rw [isBuilt_iff]
  cases s.build <;> simp [Except.toOption]

/-! ## The names of a record -/

/-- No name stands twice exactly if the names differ from each other and from those seen. -/
theorem repeated?_eq_none {names seen : List String} :
    repeated? seen names = none ↔ names.Nodup ∧ ∀ name ∈ names, name ∉ seen := by
  induction names generalizing seen with
  | nil => simp [repeated?]
  | cons name rest ih =>
    simp only [repeated?]
    by_cases hseen : name ∈ seen
    · simp [hseen]
    · rw [if_neg hseen, ih, List.nodup_cons]
      constructor
      · rintro ⟨hnodup, hrest⟩
        refine ⟨⟨fun hmem => hrest name hmem List.mem_cons_self, hnodup⟩, fun other hother => ?_⟩
        rcases List.mem_cons.mp hother with rfl | hother
        · exact hseen
        · exact fun hmem => hrest other hother (List.mem_cons_of_mem name hmem)
      · rintro ⟨⟨hname, hnodup⟩, hrest⟩
        refine ⟨hnodup, fun other hother hmem => ?_⟩
        rcases List.mem_cons.mp hmem with rfl | hmem
        · exact hname hother
        · exact hrest other (List.mem_cons_of_mem name hother) hmem

/-- **No two fields of a record that was built have one name.** -/
theorem nodup_names_of_build (h : s.IsBuilt) (hrecord : s.type = .record) :
    (s.fields.map (·.name)).Nodup := by
  obtain ⟨draft, hdraft⟩ := h
  have hnames := (build_eq_ok.mp hdraft).2
  unfold checkNames at hnames
  rw [hrecord] at hnames
  cases hrepeated : repeated? [] (s.fields.map (·.name)) with
  | none => exact (repeated?_eq_none.mp hrepeated).1
  | some field => simp [hrepeated] at hnames

end Lakehouse.Schema
