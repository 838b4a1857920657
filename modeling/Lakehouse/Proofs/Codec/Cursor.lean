import Lakehouse.Codec.Cursor
import Lakehouse.Proofs.Json.RoundTrip

/-!
# Reading values through a cursor

A cursor carries how many containers may still be opened. What was written of a value is read as
that value if they are enough for its document, and is refused if they are not; nothing is read as
another value.

* `Json.depth`: how many containers are open at once in a document.
* `Json.Number.ofLiteral_ofInt`: an integer is what its literal denotes.
* `Cursor.Restores`: a value is read from its document exactly if there is room for it.
* `Cursor.restores_list`: a list is, if its elements are.
* `Cursor.fields?_record`: the members of a record are found by their names.
* `Cursor.parse_render`: a text that was written is handed on as its document.
-/

namespace Lakehouse

namespace Json

/-! ## Nesting -/

mutual

/-- How many containers are open at once where a document nests deepest. -/
def depth : Json → Nat
  | .array elements => depthElements elements + 1
  | .object members => depthMembers members + 1
  | _ => 0

/-- How deep elements nest. -/
def depthElements : List Json → Nat
  | [] => 0
  | e :: rest => max e.depth (depthElements rest)

/-- How deep the values of members nest. -/
def depthMembers : List (Option String × Json) → Nat
  | [] => 0
  | (_, e) :: rest => max e.depth (depthMembers rest)

end

variable {α : Type} {d : Nat}

theorem depthElements_le {es : List Json} : depthElements es ≤ d ↔ ∀ e ∈ es, e.depth ≤ d := by
  induction es with
  | nil => simp [depthElements]
  | cons e es ih => rw [depthElements, Nat.max_le, ih, List.forall_mem_cons]

theorem depthMembers_le {ms : List (Option String × Json)} :
    depthMembers ms ≤ d ↔ ∀ m ∈ ms, m.2.depth ≤ d := by
  induction ms with
  | nil => simp [depthMembers]
  | cons m ms ih => rw [depthMembers, Nat.max_le, ih, List.forall_mem_cons]

@[simp] theorem depth_text (s : String) : (text s).depth = 0 := rfl

@[simp] theorem depth_boolean (b : Bool) : (boolean b).depth = 0 := rfl

theorem depth_optional {encode : α → Json} (h : ∀ a, (encode a).depth = 0) (o : Option α) :
    (optional encode o).depth = 0 := by
  cases o with
  | none => rfl
  | some a => exact h a

theorem depth_list_le {encode : α → Json} {as : List α} :
    (list encode as).depth ≤ d + 1 ↔ ∀ a ∈ as, (encode a).depth ≤ d := by
  rw [list, depth, Nat.succ_le_succ_iff, depthElements_le, List.forall_mem_map]

theorem depth_record_le {ms : List (String × Json)} :
    (record ms).depth ≤ d + 1 ↔ ∀ m ∈ ms, m.2.depth ≤ d := by
  rw [record, depth, Nat.succ_le_succ_iff, depthMembers_le, List.forall_mem_map]

/-! ## Integers -/

/-- An integer of 64 bits, with or without sign, is what its literal denotes. -/
theorem Number.ofLiteral_ofInt {n : Int} (hlow : -2 ^ (63 : Nat) ≤ n) (hhigh : n < 2 ^ (64 : Nat)) :
    (ofLiteral (Numeral.ofInt n)).bind toInt? = some n := by
  have hdigits : ∀ c ∈ Numeral.digits n.natAbs, c.isDigit = true := fun c hc =>
    Numeral.isDigit_of_mem_digits hc
  obtain ⟨htake, hdrop⟩ := span_isDigit hdigits .nil
  rw [List.append_nil] at htake hdrop
  unfold ofLiteral Numeral.ofInt Numeral.signed
  rw [String.toList_ofList]
  by_cases hneg : n < 0
  · have habs : -(n.natAbs : Int) = n := by omega
    have hwhole : ofWhole true (Numeral.digits n.natAbs) = some (.negative (Int64.ofInt n)) := by
      unfold ofWhole
      rw [Numeral.ofDigitChars_digits, if_pos rfl, if_pos (by omega), habs]
    simp only [if_pos hneg, htake, hdrop, hwhole, Option.bind_some, toInt?]
    rw [Int64.toInt_ofInt_of_le hlow (by omega)]
  · have hwhole : ofWhole false (Numeral.digits n.natAbs) =
        some (.natural (UInt64.ofNat n.natAbs)) := by
      unfold ofWhole
      rw [Numeral.ofDigitChars_digits, if_neg (by decide), if_pos (by omega)]
    have hminus : ∀ cs, Numeral.digits n.natAbs ≠ '-' :: cs := fun cs => by
      simpa using Numeral.digits_append_ne_minus n.natAbs [] cs
    have hsize : n.natAbs < UInt64.size := by
      change n.natAbs < 2 ^ (64 : Nat)
      omega
    rw [if_neg hneg]
    split
    rename_i minus cs hsign
    split at hsign
    · rename_i hcons
      exact absurd hcons (hminus _)
    · cases hsign
      simp only [htake, hdrop, hwhole, Option.bind_some, toInt?]
      rw [UInt64.toNat_ofNat_of_lt' hsize]
      exact congrArg some (by omega)

end Json

/-! ## Reading a list -/

/-- A list is read when each of its elements is. -/
theorem mapM_eq_ite {α β : Type} {f : α → Option β} {g : α → β} {P : α → Prop} [DecidablePred P]
    {as : List α} (h : ∀ a ∈ as, f a = if P a then some (g a) else none) :
    as.mapM f = if ∀ a ∈ as, P a then some (as.map g) else none := by
  induction as with
  | nil => simp
  | cons a as ih =>
    obtain ⟨ha, has⟩ := List.forall_mem_cons.mp h
    rw [List.mapM_cons, ha, ih has]
    by_cases hhead : P a
    · by_cases htail : ∀ b ∈ as, P b
      · rw [if_pos hhead, if_pos htail, if_pos (List.forall_mem_cons.mpr ⟨hhead, htail⟩)]
        rfl
      · rw [if_pos hhead, if_neg htail, if_neg fun hall => htail (List.forall_mem_cons.mp hall).2]
        rfl
    · rw [if_neg hhead, if_neg fun hall => hhead (List.forall_mem_cons.mp hall).1]
      rfl

/-- When each element is read, the list is read as their list. -/
theorem mapM_eq_some_map {α β : Type} {f : α → Option β} {g : α → β} {as : List α}
    (h : ∀ a ∈ as, f a = some (g a)) : as.mapM f = some (as.map g) := by
  have hread := mapM_eq_ite (P := fun _ => True) fun a ha => (h a ha).trans (if_pos trivial).symm
  rw [hread, if_pos fun _ _ => trivial]

/-! ## Cursors -/

/-- A member is found by its name, if no other has that name. -/
theorem Document.single?_map {β δ : Type} (node : β → δ) {ms : List (String × β)} {m : String × β}
    (hdistinct : (ms.map (·.1)).Nodup) (hm : m ∈ ms) :
    single? m.1 (ms.map fun m => (some m.1, node m.2)) = some (some (node m.2)) := by
  have hfilter : (ms.map fun m => (some m.1, node m.2)).filter (fun other => other.1 = some m.1) =
      [(some m.1, node m.2)] := by
    induction ms with
    | nil => cases hm
    | cons first ms ih =>
      obtain ⟨hfirst, hrest⟩ := List.nodup_cons.mp (List.map_cons ▸ hdistinct)
      rw [List.map_cons]
      rcases List.mem_cons.mp hm with heq | hm
      · have hnone : ∀ other ∈ ms, other.1 ≠ m.1 := fun other hother h =>
          hfirst (heq ▸ h ▸ List.mem_map_of_mem hother)
        rw [List.filter_cons_of_pos (by simp [heq]), heq, List.filter_eq_nil_iff.mpr]
        exact List.forall_mem_map.mpr fun other hother => by simpa [← heq] using hnone other hother
      · have hne : first.1 ≠ m.1 := fun h => hfirst (h ▸ List.mem_map_of_mem hm)
        rw [List.filter_cons_of_neg (by simpa using hne), ih hrest hm]
  unfold single?
  rw [hfilter]

namespace Cursor

variable {α : Type} {d : Nat}

/-- Whether a value is read from its document where `d` containers may still be opened: it is
exactly if that many are enough. -/
def Restores (read : Cursor → Option α) (d : Nat) (j : Json) (a : α) : Prop :=
  read ⟨j, d⟩ = if j.depth ≤ d then some a else none

theorem Restores.eq {read : Cursor → Option α} {j : Json} {a : α} (h : Restores read d j a) :
    read ⟨j, d⟩ = if j.depth ≤ d then some a else none := h

theorem Restores.of_iff {read : Cursor → Option α} {j : Json} {a : α} {P : Prop} [Decidable P]
    (hdepth : j.depth ≤ d ↔ P) (h : read ⟨j, d⟩ = if P then some a else none) :
    Restores read d j a := by
  unfold Restores
  rw [h]
  simp only [hdepth]

/-- An integer within its bounds is read as it was written. -/
theorem int?_integer {low high n : Int} (hlow : low ≤ n) (hhigh : n ≤ high)
    (hbelow : -2 ^ (63 : Nat) ≤ low) (habove : high < 2 ^ (64 : Nat)) :
    int? low high ⟨.integer n, d⟩ = some n := by
  have hnumber : (number? ⟨.integer n, d⟩).bind Json.Number.toInt? = some n :=
    Json.Number.ofLiteral_ofInt (by omega) (by omega)
  obtain ⟨number, hnumber, hint⟩ := Option.bind_eq_some_iff.mp hnumber
  simp [int?, hnumber, hint, hlow, hhigh]

theorem int32?_integer (d : Nat) (n : Int32) : int32? ⟨.integer n.toInt, d⟩ = some n := by
  have hlow := n.le_toInt
  have hhigh := n.toInt_lt
  rw [int32?, int?_integer (by omega) (by omega) (by decide) (by decide), Option.map_some,
    Int32.ofInt_toInt]

theorem uint32?_integer (d : Nat) (n : UInt32) : uint32? ⟨.integer n.toNat, d⟩ = some n := by
  have hhigh := n.toNat_lt
  rw [uint32?, int?_integer (by omega) (by omega) (by decide) (by decide), Option.map_some,
    Int.toNat_natCast, UInt32.ofNat_toNat]

theorem int64?_integer (d : Nat) (n : Int64) : int64? ⟨.integer n.toInt, d⟩ = some n := by
  have hlow := n.le_toInt
  have hhigh := n.toInt_lt
  rw [int64?, int?_integer (by omega) (by omega) (by decide) (by decide), Option.map_some,
    Int64.ofInt_toInt]

theorem uint64?_integer (d : Nat) (n : UInt64) : uint64? ⟨.integer n.toNat, d⟩ = some n := by
  have hhigh := n.toNat_lt
  rw [uint64?, int?_integer (by omega) (by omega) (by decide) (by decide), Option.map_some,
    Int.toNat_natCast, UInt64.ofNat_toNat]

theorem byte?_integer (d : Nat) (b : UInt8) : byte? ⟨.integer b.toNat, d⟩ = some b := by
  have hhigh := b.toNat_lt
  rw [byte?, int?_integer (by omega) (by omega) (by decide) (by decide), Option.map_some,
    Int.toNat_natCast, UInt8.ofNat_toNat]

/-- A node that may be absent is read as it was written, if what it holds is no absent node. -/
theorem nullable_optional {read : Cursor → Option α} {encode : α → Json} {o : Option α}
    (h : ∀ a ∈ o, isNull ⟨encode a, d⟩ = false ∧ read ⟨encode a, d⟩ = some a) :
    Document.nullable read (⟨.optional encode o, d⟩ : Cursor) = some o := by
  cases o with
  | none => rfl
  | some a =>
    obtain ⟨hnull, hread⟩ := h a rfl
    change (if isNull ⟨encode a, d⟩ = true then _ else (read ⟨encode a, d⟩).map some) = _
    rw [hnull, hread]
    rfl

theorem restores_list {read : Cursor → Option α} {encode : α → Json} {as : List α}
    (h : ∀ d' < d, ∀ a ∈ as, Restores read d' (encode a) a) :
    Restores (Document.list? read) d (.list encode as) as := by
  cases d with
  | zero => rfl
  | succ d =>
    have hread : ∀ a ∈ as, (read ∘ (fun e => ⟨e, d⟩) ∘ encode) a =
        if (encode a).depth ≤ d then some (id a) else none := h d (Nat.lt_succ_self d)
    change ((as.map encode).map fun e => (⟨e, d⟩ : Cursor)).mapM read = _
    rw [List.map_map, List.mapM_map, mapM_eq_ite hread, List.map_id]
    simp only [Json.depth_list_le]

theorem members?_record (d : Nat) (ms : List (String × Json)) :
    members? ⟨.record ms, d + 1⟩ = some (ms.map fun m => (some m.1, ⟨m.2, d⟩)) := by
  change some ((ms.map _).map _) = _
  rw [List.map_map]
  rfl

/-- The members of a record are found by their names. -/
theorem fields?_record {names : List String} {ms : List (String × Json)} (needed : Nat)
    (hnames : ms.map (·.1) = names) (hdistinct : names.Nodup) :
    Document.fields? names needed (⟨.record ms, d + 1⟩ : Cursor) =
      some (ms.map fun m => some ⟨m.2, d⟩) := by
  subst hnames
  unfold Document.fields?
  have hmembers : Document.members? (⟨.record ms, d + 1⟩ : Cursor) =
      some (ms.map fun m => (some m.1, ⟨m.2, d⟩)) := members?_record d ms
  rw [hmembers]
  have hnamed : (ms.map fun m => (some m.1, (⟨m.2, d⟩ : Cursor))).any (·.1.isNone) = false := by
    simp
  simp only [hnamed, Bool.false_eq_true, if_false]
  rw [List.mapM_map]
  exact mapM_eq_some_map fun m hm => Document.single?_map (fun e => (⟨e, d⟩ : Cursor)) hdistinct hm

/-- A legible document is handed to the reader of values as it was written. -/
theorem parse_render {read : Cursor → Option α} {j : Json} (h : j.Legible) :
    Cursor.parse read j.render = read ⟨j, maxDepth⟩ := by
  rw [Cursor.parse, Json.parse_render h]
  rfl

end Cursor

end Lakehouse
