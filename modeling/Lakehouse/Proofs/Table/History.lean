import Lakehouse.Table.Snapshot

/-!
# Histories

The history of a source is the list of its commits. Positions are totally ordered by
`Checkpoint.before`; a history whose positions strictly increase falls at every position into the
commits up to it and the commits after it.

* `Checkpoint.before_trichotomy`, `Checkpoint.before_trans`, `Checkpoint.before_irrefl`: the order
  of positions is strict and total.
* `History.upTo_append_after`: a history is what is up to a position, and then what is after it.
* `History.after_after`: what is after a position can be cut from what is after an older one.
* `History.upTo_of_prefix`: a history that grows keeps what is up to a position it has.
-/

namespace Lakehouse

/-! ## The order of positions -/

namespace Instant

theorem before_iff {a b : Instant} :
    a.before b = true ↔ a.seconds < b.seconds ∨ (a.seconds = b.seconds ∧ a.nanos < b.nanos) := by
  unfold before
  rw [Bool.or_eq_true, Bool.and_eq_true, decide_eq_true_iff, beq_iff_eq, decide_eq_true_iff]

theorem before_trans {a b c : Instant} (hab : a.before b = true) (hbc : b.before c = true) :
    a.before c = true := by
  rw [before_iff] at hab hbc ⊢
  omega

theorem before_irrefl (a : Instant) : a.before a = false := by
  rw [Bool.eq_false_iff]
  intro h
  rw [before_iff] at h
  omega

theorem before_trichotomy (a b : Instant) : a.before b = true ∨ a = b ∨ b.before a = true := by
  rw [before_iff, before_iff]
  have heq : a.seconds = b.seconds → a.nanos = b.nanos → a = b := fun hs hn => by
    obtain ⟨_, _⟩ := a
    obtain ⟨_, _⟩ := b
    simp only at hs hn
    rw [hs, hn]
  by_cases hs : a.seconds = b.seconds
  · by_cases hn : a.nanos = b.nanos
    · exact Or.inr (Or.inl (heq hs hn))
    · omega
  · omega

end Instant

namespace Checkpoint

theorem before_iff {a b : Checkpoint} :
    a.before b = true ↔ a.time.before b.time = true ∨ (a.time = b.time ∧ a.commit < b.commit) := by
  unfold before
  rw [Bool.or_eq_true, Bool.and_eq_true, beq_iff_eq, decide_eq_true_iff]

theorem before_trans {a b c : Checkpoint} (hab : a.before b = true) (hbc : b.before c = true) :
    a.before c = true := by
  rw [before_iff] at hab hbc ⊢
  rcases hab with hab | ⟨hab, hab'⟩
  · rcases hbc with hbc | ⟨hbc, -⟩
    · exact Or.inl (Instant.before_trans hab hbc)
    · exact Or.inl (hbc ▸ hab)
  · rcases hbc with hbc | ⟨hbc, hbc'⟩
    · exact Or.inl (hab ▸ hbc)
    · exact Or.inr ⟨hab.trans hbc, String.lt_trans hab' hbc'⟩

theorem before_irrefl (a : Checkpoint) : a.before a = false := by
  rw [Bool.eq_false_iff]
  intro h
  rw [before_iff, Instant.before_irrefl] at h
  rcases h with h | ⟨-, h⟩
  · exact absurd h Bool.false_ne_true
  · exact String.lt_irrefl _ h

theorem before_trichotomy (a b : Checkpoint) :
    a.before b = true ∨ a = b ∨ b.before a = true := by
  rw [before_iff, before_iff]
  rcases Instant.before_trichotomy a.time b.time with ht | ht | ht
  · exact Or.inl (Or.inl ht)
  · rcases Std.lt_trichotomy a.commit b.commit with hc | hc | hc
    · exact Or.inl (Or.inr ⟨ht, hc⟩)
    · refine Or.inr (Or.inl ?_)
      obtain ⟨_, _⟩ := a
      obtain ⟨_, _⟩ := b
      simp only at ht hc
      rw [ht, hc]
    · exact Or.inr (Or.inr (Or.inr ⟨ht.symm, hc⟩))
  · exact Or.inr (Or.inr (Or.inl ht))

theorem before_asymm {a b : Checkpoint} (h : a.before b = true) : b.before a = false := by
  rw [Bool.eq_false_iff]
  intro h'
  have := before_trans h h'
  rw [before_irrefl] at this
  exact Bool.false_ne_true this

theorem upTo_iff {a b : Checkpoint} : a.upTo b = true ↔ b.before a = false := by
  unfold upTo
  rw [Bool.not_eq_true']

theorem upTo_refl (a : Checkpoint) : a.upTo a = true := upTo_iff.mpr (before_irrefl a)

theorem upTo_of_before {a b : Checkpoint} (h : a.before b = true) : a.upTo b = true :=
  upTo_iff.mpr (before_asymm h)

/-- What is up to a position is before it or is that position. -/
theorem before_or_eq_of_upTo {a b : Checkpoint} (h : a.upTo b = true) :
    a.before b = true ∨ a = b := by
  rw [upTo_iff] at h
  rcases before_trichotomy a b with hab | hab | hba
  · exact Or.inl hab
  · exact Or.inr hab
  · rw [h] at hba
    exact absurd hba Bool.false_ne_true

theorem before_of_upTo_of_before {a b c : Checkpoint} (hab : a.upTo b = true)
    (hbc : b.before c = true) : a.before c = true := by
  rcases before_or_eq_of_upTo hab with h | rfl
  · exact before_trans h hbc
  · exact hbc

theorem upTo_trans {a b c : Checkpoint} (hab : a.upTo b = true) (hbc : b.upTo c = true) :
    a.upTo c = true := by
  rcases before_or_eq_of_upTo hbc with h | rfl
  · exact upTo_of_before (before_of_upTo_of_before hab h)
  · exact hab

end Checkpoint

/-! ## Histories -/

/-- The commits of a source, the oldest first. -/
abbrev History := List Change

namespace History

variable {h h' : History} {c : Checkpoint}

/-- Each commit is at a position before that of every later one. -/
def Increasing (h : History) : Prop :=
  h.Pairwise fun x y => x.checkpoint.before y.checkpoint = true

/-- The commits after a position. -/
def after (h : History) (c : Checkpoint) : History := h.filter fun x => c.before x.checkpoint

/-- The commits up to a position, with that one. -/
def upTo (h : History) (c : Checkpoint) : History := h.filter fun x => x.checkpoint.upTo c

/-- The position of the latest commit. -/
def head? (h : History) : Option Checkpoint := h.getLast?.map Change.checkpoint

/-- Whether a commit is at a position. -/
def Has (h : History) (c : Checkpoint) : Prop := ∃ x ∈ h, x.checkpoint = c

theorem Increasing.after (hinc : h.Increasing) (c : Checkpoint) : (h.after c).Increasing :=
  List.Pairwise.filter _ hinc

theorem Increasing.upTo (hinc : h.Increasing) (c : Checkpoint) : (h.upTo c).Increasing :=
  List.Pairwise.filter _ hinc

/-- A history has no commit twice. -/
theorem Increasing.nodup (hinc : h.Increasing) : h.Nodup :=
  List.Pairwise.imp (fun {x y} hxy hne => by
    rw [hne, Checkpoint.before_irrefl] at hxy
    exact Bool.false_ne_true hxy) hinc

/-- What is after a position can be cut from what is after an older one. -/
theorem after_after {since own : Checkpoint} (hold : own.before since = false) :
    (h.after since).after own = h.after own := by
  unfold History.after
  rw [List.filter_filter]
  refine List.filter_congr fun x _ => ?_
  by_cases hx : own.before x.checkpoint = true
  · have hsince : since.before x.checkpoint = true :=
      Checkpoint.before_of_upTo_of_before (Checkpoint.upTo_iff.mpr hold) hx
    rw [hx, hsince, Bool.and_true]
  · rw [Bool.not_eq_true] at hx
    rw [hx, Bool.false_and]

/-- A history is what is up to a position, and then what is after it. -/
theorem upTo_append_after (hinc : h.Increasing) (c : Checkpoint) :
    h.upTo c ++ h.after c = h := by
  induction h with
  | nil => rfl
  | cons x rest ih =>
    obtain ⟨hx, hrest⟩ := List.pairwise_cons.mp hinc
    unfold upTo History.after at ih ⊢
    by_cases hc : c.before x.checkpoint = true
    · -- the first commit is after the position, and so are all others
      have hup : (x :: rest).filter (fun y => y.checkpoint.upTo c) = [] := by
        rw [List.filter_eq_nil_iff]
        intro y hy hyc
        rw [Checkpoint.upTo_iff] at hyc
        rcases List.mem_cons.mp hy with rfl | hy
        · exact Bool.false_ne_true (hyc.symm.trans hc)
        · exact Bool.false_ne_true (hyc.symm.trans (Checkpoint.before_trans hc (hx y hy)))
      have hall : (x :: rest).filter (fun y => c.before y.checkpoint) = x :: rest := by
        rw [List.filter_eq_self]
        intro y hy
        rcases List.mem_cons.mp hy with rfl | hy
        · exact hc
        · exact Checkpoint.before_trans hc (hx y hy)
      rw [hup, hall, List.nil_append]
    · have hup : x.checkpoint.upTo c = true :=
        Checkpoint.upTo_iff.mpr (Bool.not_eq_true _ ▸ hc)
      rw [List.filter_cons_of_pos (by exact hup), List.filter_cons_of_neg (by exact hc),
        List.cons_append, ih hrest]

/-- No commit is after the head. -/
theorem after_head (hinc : h.Increasing) (hc : h.head? = some c) : h.after c = [] := by
  unfold head? at hc
  obtain ⟨last, hlast, rfl⟩ := Option.map_eq_some_iff.mp hc
  obtain ⟨init, rfl⟩ := List.getLast?_eq_some_iff.mp hlast
  obtain ⟨-, -, hinit⟩ := List.pairwise_append.mp hinc
  unfold History.after
  rw [List.filter_eq_nil_iff]
  intro y hy hby
  rcases List.mem_append.mp hy with hy | hy
  · have := Checkpoint.before_asymm (hinit y hy last (List.mem_singleton.mpr rfl))
    exact Bool.false_ne_true (this.symm.trans hby)
  · rw [List.mem_singleton.mp hy, Checkpoint.before_irrefl] at hby
    exact Bool.false_ne_true hby

/-- All commits are up to the head. -/
theorem upTo_head (hinc : h.Increasing) (hc : h.head? = some c) : h.upTo c = h := by
  have hall := upTo_append_after hinc c
  rw [after_head hinc hc, List.append_nil] at hall
  exact hall

theorem has_of_head (hc : h.head? = some c) : h.Has c := by
  obtain ⟨last, hlast, hpos⟩ := Option.map_eq_some_iff.mp hc
  exact ⟨last, List.mem_of_getLast? hlast, hpos⟩

/-- Every position of a history is up to its head. -/
theorem upTo_head_of_has {d : Checkpoint} (hinc : h.Increasing) (hc : h.Has c)
    (hd : h.head? = some d) : c.upTo d = true := by
  obtain ⟨x, hx, rfl⟩ := hc
  rw [← upTo_head hinc hd] at hx
  exact (List.mem_filter.mp hx).2

/-- The latest commit after a position is the latest of all. -/
theorem head_of_head_after {d : Checkpoint} (hinc : h.Increasing)
    (hd : (h.after c).head? = some d) : h.head? = some d := by
  unfold head? at hd ⊢
  obtain ⟨last, hlast, hpos⟩ := Option.map_eq_some_iff.mp hd
  rw [← upTo_append_after hinc c, List.getLast?_append, hlast, Option.some_or, Option.map_some,
    hpos]

/-- A history that grows keeps its positions. -/
theorem Has.of_prefix (hc : h.Has c) (hgrow : h <+: h') : h'.Has c := by
  obtain ⟨x, hx, hpos⟩ := hc
  exact ⟨x, hgrow.subset hx, hpos⟩

/-- A history that grows keeps what is up to a position it has. -/
theorem upTo_of_prefix (hinc : h'.Increasing) (hgrow : h <+: h') (hc : h.Has c) :
    h'.upTo c = h.upTo c := by
  obtain ⟨new, rfl⟩ := hgrow
  obtain ⟨x, hx, rfl⟩ := hc
  obtain ⟨-, -, hnew⟩ := List.pairwise_append.mp hinc
  unfold upTo
  rw [List.filter_append]
  have hnone : new.filter (fun y => y.checkpoint.upTo x.checkpoint) = [] := by
    rw [List.filter_eq_nil_iff]
    intro y hy hup
    rw [Checkpoint.upTo_iff, hnew x hx y hy] at hup
    exact Bool.noConfusion hup
  rw [hnone, List.append_nil]

end History

end Lakehouse
