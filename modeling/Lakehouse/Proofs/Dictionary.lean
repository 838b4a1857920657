import Lakehouse.Dictionary

/-!
# Dictionaries are told apart by their values

The entries of a dictionary are strictly in the order of their names, so nothing but the values
distinguishes two dictionaries, and values for different names can be set in either order.

* `Dictionary.eq_of_get?`: dictionaries with the same values are equal.
* `Dictionary.insert_comm`: values for different names can be set in either order.
* `Dictionary.get?_overlay`: in an overlay the values of the upper dictionary count before those of
  the lower one. So overlays are associative, and nothing changes when one is repeated.
-/

namespace Lakehouse

namespace Dictionary

variable {α : Type}

/-- A name in front of all others has no value. -/
theorem lookup_of_lt {name : String} {es : List (String × α)} (h : ∀ e ∈ es, name < e.1) :
    lookup name es = none := by
  induction es with
  | nil => rfl
  | cons e es ih =>
    obtain ⟨k, v⟩ := e
    have hne : k ≠ name := by
      rintro rfl
      exact String.lt_irrefl k (h (k, v) List.mem_cons_self)
    simp only [lookup, if_neg hne]
    exact ih fun e he => h e (List.mem_cons_of_mem _ he)

theorem lookup_cons_self (name : String) (v : α) (es : List (String × α)) :
    lookup name ((name, v) :: es) = some v := by
  simp only [lookup, if_true]

theorem lookup_cons_of_lt {name k : String} {v : α} {es : List (String × α)} (hlt : name < k)
    (hk : ∀ e ∈ es, k < e.1) : lookup name ((k, v) :: es) = none :=
  lookup_of_lt fun e he => by
    rcases List.mem_cons.mp he with rfl | he
    · exact hlt
    · exact String.lt_trans hlt (hk e he)

/-- Entries in the order of their names are determined by their values. -/
theorem eq_of_lookup : ∀ {es fs : List (String × α)}, es.Pairwise (fun a b => a.1 < b.1) →
    fs.Pairwise (fun a b => a.1 < b.1) → (∀ name, lookup name es = lookup name fs) → es = fs
  | [], [], _, _, _ => rfl
  | [], (l, w) :: fs, _, _, h => by
    have hl := h l
    rw [lookup_cons_self] at hl
    cases hl
  | (k, v) :: es, [], _, _, h => by
    have hk := h k
    rw [lookup_cons_self] at hk
    cases hk
  | (k, v) :: es, (l, w) :: fs, hes, hfs, h => by
    obtain ⟨hk, hes'⟩ := List.pairwise_cons.mp hes
    obtain ⟨hl, hfs'⟩ := List.pairwise_cons.mp hfs
    rcases Std.lt_trichotomy k l with hlt | rfl | hgt
    · have hfirst := h k
      rw [lookup_cons_self, lookup_cons_of_lt hlt hl] at hfirst
      cases hfirst
    · have hfirst := h k
      rw [lookup_cons_self, lookup_cons_self] at hfirst
      cases hfirst
      rw [eq_of_lookup hes' hfs' fun name => ?_]
      by_cases hname : k = name
      · subst hname
        rw [lookup_of_lt hk, lookup_of_lt hl]
      · have hrest := h name
        simp only [lookup, if_neg hname] at hrest
        exact hrest
    · have hfirst := h l
      rw [lookup_cons_self, lookup_cons_of_lt hgt hk] at hfirst
      cases hfirst

/-- **Dictionaries with the same values are equal.** -/
theorem eq_of_get? {d e : Dictionary α} (h : ∀ name, d.get? name = e.get? name) : d = e := by
  obtain ⟨es, hes⟩ := d
  obtain ⟨fs, hfs⟩ := e
  have hentries : es = fs := eq_of_lookup hes hfs h
  subst hentries
  rfl

/-- Values for different names can be set in either order. -/
theorem insert_comm (d : Dictionary α) {name other : String} (hne : name ≠ other) (v w : α) :
    (d.insert name v).insert other w = (d.insert other w).insert name v := by
  refine eq_of_get? fun k => ?_
  rw [get?_insert, get?_insert, get?_insert, get?_insert]
  by_cases hk : k = name
  · rw [if_pos hk, if_neg fun heq => hne (hk.symm.trans heq), if_pos hk]
  · rw [if_neg hk, if_neg hk]

/-- Of two values set for one name the later counts. -/
theorem insert_insert (d : Dictionary α) (name : String) (v w : α) :
    (d.insert name v).insert name w = d.insert name w := by
  refine eq_of_get? fun k => ?_
  rw [get?_insert, get?_insert, get?_insert]
  by_cases hk : k = name
  · rw [if_pos hk, if_pos hk]
  · rw [if_neg hk, if_neg hk, if_neg hk]

theorem get?_insert_self (d : Dictionary α) (name : String) (v : α) :
    (d.insert name v).get? name = some v := by
  rw [get?_insert, if_pos rfl]

theorem get?_insert_of_ne (d : Dictionary α) {name other : String} (hne : other ≠ name) (v : α) :
    (d.insert name v).get? other = d.get? other := by
  rw [get?_insert, if_neg hne]

/-! ## Entries -/

theorem lookup_eq_some_iff {name : String} {v : α} {es : List (String × α)}
    (hs : es.Pairwise fun a b => a.1 < b.1) : lookup name es = some v ↔ (name, v) ∈ es := by
  induction es with
  | nil => simp [lookup]
  | cons e es ih =>
    obtain ⟨k, w⟩ := e
    obtain ⟨hk, hes⟩ := List.pairwise_cons.mp hs
    rw [List.mem_cons]
    by_cases hname : k = name
    · subst hname
      rw [lookup_cons_self]
      constructor
      · intro h
        cases h
        exact .inl rfl
      · rintro (h | h)
        · cases h
          rfl
        · exact absurd (hk (k, v) h) (String.lt_irrefl k)
    · have hne : ¬(name, v) = (k, w) := fun h => hname (Prod.mk.inj h).1.symm
      simp only [lookup, if_neg hname, ih hes, hne, false_or]

theorem get?_eq_some_iff {d : Dictionary α} {name : String} {v : α} :
    d.get? name = some v ↔ (name, v) ∈ d.entries :=
  lookup_eq_some_iff d.sorted

theorem mem_names_iff {d : Dictionary α} {name : String} :
    name ∈ d.names ↔ ∃ v, d.get? name = some v := by
  simp [names, get?_eq_some_iff]

theorem mem_names_insert {d : Dictionary α} {name other : String} {v : α} :
    other ∈ (d.insert name v).names ↔ other = name ∨ other ∈ d.names := by
  rw [mem_names_iff, mem_names_iff, get?_insert]
  by_cases h : other = name <;> simp [h]

/-! ## Overlays -/

/-- **In an overlay the values of the upper dictionary count first.** -/
theorem get?_overlay (d other : Dictionary α) (name : String) :
    (d.overlay other).get? name = (other.get? name).or (d.get? name) := by
  obtain ⟨es, hes⟩ := other
  unfold overlay
  induction es generalizing d with
  | nil => rfl
  | cons e es ih =>
    obtain ⟨k, v⟩ := e
    obtain ⟨hk, hes⟩ := List.pairwise_cons.mp hes
    rw [List.foldl_cons, ih _ hes, get?_insert]
    unfold get?
    by_cases hname : k = name
    · subst hname
      rw [lookup_of_lt hk, lookup_cons_self, if_pos rfl]
      rfl
    · simp only [lookup, if_neg hname, if_neg (Ne.symm hname)]

theorem overlay_assoc (d e f : Dictionary α) :
    (d.overlay e).overlay f = d.overlay (e.overlay f) := by
  refine eq_of_get? fun name => ?_
  simp only [get?_overlay, Option.or_assoc]

theorem overlay_self (d : Dictionary α) : d.overlay d = d := by
  refine eq_of_get? fun name => ?_
  rw [get?_overlay, Option.or_self]

theorem empty_overlay (d : Dictionary α) : empty.overlay d = d := by
  refine eq_of_get? fun name => ?_
  rw [get?_overlay]
  exact Option.or_none

end Dictionary

end Lakehouse
