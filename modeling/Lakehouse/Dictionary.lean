/-!
# Dictionaries

A dictionary assigns values to texts. Its entries are kept strictly in the order of their names, so
two dictionaries with the same assignments are equal, and whoever goes through the entries meets
them in that order.

* `Dictionary.get?` — the value of a name.
* `Dictionary.insert` — a new value for a name, in place of an old one.
* `Dictionary.alter` — a new value computed from the old one.

Model of the ordered maps that the program keys with texts.
-/

namespace Lakehouse

/-- An assignment of values to texts, in the order of the texts. -/
structure Dictionary (α : Type) where
  entries : List (String × α)
  sorted : entries.Pairwise fun a b => a.1 < b.1
  deriving DecidableEq

namespace Dictionary

variable {α β : Type}

/-- The dictionary without entries. -/
def empty : Dictionary α := ⟨[], List.Pairwise.nil⟩

/-- The value of a name among entries. -/
def lookup (name : String) : List (String × α) → Option α
  | [] => none
  | (k, v) :: rest => if k = name then some v else lookup name rest

/-- The value of a name. -/
def get? (d : Dictionary α) (name : String) : Option α := lookup name d.entries

/-- Entries with a new value for a name: in its place, or in front of the first later name. -/
def place (name : String) (v : α) : List (String × α) → List (String × α)
  | [] => [(name, v)]
  | (k, w) :: rest =>
    if name < k then (name, v) :: (k, w) :: rest
    else if name = k then (name, v) :: rest
    else (k, w) :: place name v rest

theorem mem_place {name : String} {v : α} {es : List (String × α)} {e : String × α}
    (h : e ∈ place name v es) : e = (name, v) ∨ e ∈ es := by
  induction es with
  | nil => exact Or.inl (List.mem_singleton.mp h)
  | cons x rest ih =>
    obtain ⟨k, w⟩ := x
    simp only [place] at h
    split at h
    · rcases List.mem_cons.mp h with h | h
      · exact Or.inl h
      · exact Or.inr h
    · split at h
      · rcases List.mem_cons.mp h with h | h
        · exact Or.inl h
        · exact Or.inr (List.mem_cons_of_mem _ h)
      · rcases List.mem_cons.mp h with h | h
        · exact Or.inr (h ▸ List.mem_cons_self)
        · rcases ih h with h | h
          · exact Or.inl h
          · exact Or.inr (List.mem_cons_of_mem _ h)

theorem pairwise_place (name : String) (v : α) {es : List (String × α)}
    (hs : es.Pairwise fun a b => a.1 < b.1) :
    (place name v es).Pairwise fun a b => a.1 < b.1 := by
  induction es with
  | nil => exact List.pairwise_singleton _ _
  | cons x rest ih =>
    obtain ⟨k, w⟩ := x
    obtain ⟨hk, hrest⟩ := List.pairwise_cons.mp hs
    simp only [place]
    split
    · rename_i hlt
      refine List.pairwise_cons.mpr ⟨fun e he => ?_, hs⟩
      rcases List.mem_cons.mp he with rfl | he
      · exact hlt
      · exact String.lt_trans hlt (hk e he)
    · rename_i hnlt
      split
      · rename_i heq
        subst heq
        exact List.pairwise_cons.mpr ⟨hk, hrest⟩
      · rename_i hne
        refine List.pairwise_cons.mpr ⟨fun e he => ?_, ih hrest⟩
        rcases mem_place he with rfl | he
        · rcases Std.lt_trichotomy (name : String) k with h | h | h
          · exact absurd h hnlt
          · exact absurd h hne
          · exact h
        · exact hk e he

/-- The dictionary with a new value for a name, in place of an old one. -/
def insert (d : Dictionary α) (name : String) (v : α) : Dictionary α :=
  ⟨place name v d.entries, pairwise_place name v d.sorted⟩

/-- The dictionary with a value for a name that is computed from the old one. -/
def alter (d : Dictionary α) (name : String) (f : Option α → α) : Dictionary α :=
  d.insert name (f (d.get? name))

/-- The dictionary with the given entries; of two for one name the later counts. -/
def ofList (es : List (String × α)) : Dictionary α :=
  es.foldl (fun d (k, v) => d.insert k v) empty

/-- The dictionary with the entries of `other` laid over those of `d`. -/
def overlay (d other : Dictionary α) : Dictionary α :=
  other.entries.foldl (fun d (k, v) => d.insert k v) d

/-- The names, in order. -/
def names (d : Dictionary α) : List String := d.entries.map (·.1)

/-- The first entry whose name satisfies a condition. -/
def find? (d : Dictionary α) (p : String → Bool) : Option (String × α) :=
  d.entries.find? fun e => p e.1

theorem lookup_place (name : String) (v : α) (es : List (String × α))
    (hs : es.Pairwise fun a b => a.1 < b.1) (other : String) :
    lookup other (place name v es) = if other = name then some v else lookup other es := by
  induction es with
  | nil => simp only [place, lookup, eq_comm]
  | cons x rest ih =>
    obtain ⟨k, w⟩ := x
    obtain ⟨hk, hrest⟩ := List.pairwise_cons.mp hs
    simp only [place]
    split
    · simp only [lookup, eq_comm]
    · split
      · rename_i heq
        subst heq
        simp only [lookup, eq_comm (a := name)]
        split <;> rfl
      · rename_i hne
        simp only [lookup]
        split
        · rename_i hko
          subst hko
          rw [if_neg fun h => hne h.symm]
        · exact ih hrest

theorem get?_insert (d : Dictionary α) (name : String) (v : α) (other : String) :
    (d.insert name v).get? other = if other = name then some v else d.get? other :=
  lookup_place name v d.entries d.sorted other

end Dictionary

end Lakehouse
