import Lakehouse.Json.Reader
import Lakehouse.Proofs.Number.Numeral

/-!
# Reading what was written

A document is read as it was written, at the end of a text and in the midst of a larger document. A
value is followed by nothing, a comma or a closing bracket, and none of these belongs to a number.

* `Json.Literal`: what a reader takes for a number, wherever it stands.
* `Json.literal_signed`: integers are written as literals.
* `Json.takeString_escaped`: strings are read as they were written, whatever they hold.
* `Json.Legible`: the documents with such numbers, and with all their strings.
* `Json.parse_render`: a legible document is read as it was written.
-/

namespace Lakehouse.Json

variable {steps : Nat} {c : Char} {rest : List Char}

/-! ## What follows a value -/

/-- What stands behind a value: nothing, a comma or a closing bracket. -/
inductive Closes : List Char → Prop where
  | nil : Closes []
  | comma (rest : List Char) : Closes (',' :: rest)
  | bracket (rest : List Char) : Closes (']' :: rest)
  | brace (rest : List Char) : Closes ('\x7d' :: rest)

theorem skipSpace_cons (h : isSpace c = false) : skipSpace (c :: rest) = c :: rest := by
  simp [skipSpace, h]

/-! ## Numbers -/

/-- Characters that a reader takes for the literal of a number, wherever they stand. -/
def Literal (cs : List Char) : Prop :=
  ∀ rest, Closes rest → takeNumber (cs ++ rest) = some (cs, rest)

theorem Closes.isDigit_head (h : Closes rest) : ∀ c ∈ rest.head?, c.isDigit = false := by
  cases h <;> simp

/-- Digits end in front of the first character that is none. -/
theorem span_of_head {ds : List Char} (hds : ∀ c ∈ ds, c.isDigit = true)
    (hrest : ∀ c ∈ rest.head?, c.isDigit = false) :
    (ds ++ rest).takeWhile Char.isDigit = ds ∧ (ds ++ rest).dropWhile Char.isDigit = rest := by
  rw [List.takeWhile_append_of_pos hds, List.dropWhile_append_of_pos hds]
  cases rest with
  | nil => simp
  | cons c rest =>
    have hc := hrest c rfl
    simp [hc]

theorem span_isDigit {ds : List Char} (hds : ∀ c ∈ ds, c.isDigit = true) (hrest : Closes rest) :
    (ds ++ rest).takeWhile Char.isDigit = ds ∧ (ds ++ rest).dropWhile Char.isDigit = rest :=
  span_of_head hds hrest.isDigit_head

theorem takeUnsigned_of_takeWhole {cs ds : List Char} (h : takeWhole cs = some (ds, rest))
    (hrest : Closes rest) : takeUnsigned cs = some (ds, rest) := by
  have hfraction : takeFraction rest = some ([], rest) := by cases hrest <;> rfl
  have hexponent : takeExponent rest = some ([], rest) := by cases hrest <;> rfl
  simp [takeUnsigned, h, hfraction, hexponent]

/-- Digits without a needless zero in front are taken as the whole number. -/
theorem takeWhole_append {ds : List Char} (hne : ds ≠ []) (hds : ∀ c ∈ ds, c.isDigit = true)
    (hzero : ∀ cs, ds = '0' :: cs → cs = []) (hrest : ∀ c ∈ rest.head?, c.isDigit = false) :
    takeWhole (ds ++ rest) = some (ds, rest) := by
  obtain ⟨htake, hdrop⟩ := span_of_head hds hrest
  unfold takeWhole
  split
  · rename_i left hfirst
    obtain ⟨c, cs, rfl⟩ := List.exists_cons_of_ne_nil hne
    rw [List.cons_append] at hfirst
    obtain ⟨rfl, hleft⟩ := List.cons.inj hfirst
    -- a zero in front is the whole of the digits, so no digit follows it
    have hnil := hzero cs rfl
    subst hnil
    rw [List.nil_append] at hleft
    subst hleft
    have hany : rest.head?.any Char.isDigit = false := by
      cases hhead : rest.head? with
      | none => rfl
      | some c => exact hrest c hhead
    rw [hany]
    rfl
  · rw [htake, hdrop, if_neg hne]

theorem takeWhole_digits (n : Nat) (hrest : Closes rest) :
    takeWhole (Numeral.digits n ++ rest) = some (Numeral.digits n, rest) :=
  takeWhole_append Nat.toDigits_ne_nil (fun _ => Numeral.isDigit_of_mem_digits)
    (fun _ => Numeral.eq_nil_of_digits_eq_zero_cons) hrest.isDigit_head

/-- **The digits of an integer behind its sign are the literal of a number.** -/
theorem literal_signed (n : Int) : Literal (Numeral.signed n) := by
  intro rest hrest
  have hunsigned := takeUnsigned_of_takeWhole (takeWhole_digits n.natAbs hrest) hrest
  unfold Numeral.signed
  split
  · rw [List.cons_append]
    simp only [takeNumber, hunsigned, Option.map_some]
  · unfold takeNumber
    split
    · rename_i h
      exact absurd h (Numeral.digits_append_ne_minus _ _ _)
    · exact hunsigned

theorem ne_of_minus_or_digit {d : Char} (hc : c = '-' ∨ c.isDigit = true) (hminus : d ≠ '-')
    (hdigit : d.isDigit = false) : c ≠ d := by
  rintro rfl
  rcases hc with hc | hc
  · exact hminus hc
  · rw [hdigit] at hc
    cases hc

/-- A number begins with a minus sign or a digit. -/
theorem head_of_takeNumber {cs : List Char} {r : List Char × List Char}
    (h : takeNumber cs = some r) :
    ∃ c rest, cs = c :: rest ∧ (c = '-' ∨ c.isDigit = true) := by
  unfold takeNumber at h
  split at h
  · exact ⟨_, _, rfl, .inl rfl⟩
  · unfold takeUnsigned at h
    obtain ⟨w, hwhole, -⟩ := Option.bind_eq_some_iff.mp h
    unfold takeWhole at hwhole
    split at hwhole
    · exact ⟨_, _, rfl, .inr rfl⟩
    · cases cs with
      | nil => simp at hwhole
      | cons c rest =>
        refine ⟨c, rest, rfl, .inr ?_⟩
        cases hc : c.isDigit
        · simp [hc] at hwhole
        · rfl

/-! ## Strings -/

theorem takeUnits_short {e : Char} {us : List Unit} {left : List Char}
    (he : shortEscape? e = some c) (h : takeUnits rest = some (us, left)) :
    takeUnits ('\\' :: e :: rest) = some (.char c :: us, left) := by
  have hu : e ≠ 'u' := by
    rintro rfl
    cases he
  rw [takeUnits.eq_3 _ _ fun _ _ _ _ _ h => absurd h hu, he, h]
  rfl

/-- The control characters are told by the last two digits of their code unit. -/
theorem hexUnit?_control : ∀ n < 0x20,
    hexUnit? '0' '0' (Nat.digitChar (n / 16)) (Nat.digitChar (n % 16)) = some n ∧
      Unit.ofNat n = .char (Char.ofNat n) := by
  decide

theorem takeUnits_escape {us : List Unit} {left : List Char} (c : Char)
    (h : takeUnits rest = some (us, left)) :
    takeUnits (escape c ++ rest) = some (.char c :: us, left) := by
  unfold escape
  split
  case h_8 hquote hslash _ _ _ _ _ =>
    split
    · rename_i hcontrol
      obtain ⟨hunit, hchar⟩ := hexUnit?_control c.toNat hcontrol
      rw [Char.ofNat_toNat] at hchar
      simp only [List.cons_append, List.nil_append, takeUnits, hunit, h, Option.bind_eq_bind,
        Option.bind_some, hchar]
      rfl
    · rename_i hcontrol
      rw [List.singleton_append, takeUnits.eq_4 _ _ hquote (fun _ _ _ _ _ h _ => hslash h)
        (fun _ _ h _ => hslash h), if_neg (not_or.mpr ⟨hcontrol, hslash⟩), h]
      rfl
  all_goals exact takeUnits_short rfl h

theorem takeUnits_flatMap_escape (cs : List Char) (rest : List Char) :
    takeUnits (cs.flatMap escape ++ '"' :: rest) = some (cs.map .char, rest) := by
  induction cs with
  | nil => rfl
  | cons c cs ih =>
    rw [List.flatMap_cons, List.append_assoc]
    exact takeUnits_escape c ih

theorem joinUnits_map_char (cs : List Char) : joinUnits (cs.map .char) = some cs := by
  induction cs with
  | nil => rfl
  | cons c cs ih => rw [List.map_cons, joinUnits, ih, Option.map_some]

/-- **A string is read as it was written.** -/
theorem takeString_escaped (s : String) (rest : List Char) :
    takeString (s.toList.flatMap escape ++ '"' :: rest) = some (some s, rest) := by
  simp [takeString, takeUnits_flatMap_escape, joinUnits_map_char]

/-! ## Documents -/

/-- A document that can be written and read: its numbers are literals of numbers, and none of its
strings is absent. -/
inductive Legible : Json → Prop where
  | null : Legible .null
  | boolean (b : Bool) : Legible (.boolean b)
  | number {literal : String} (h : Literal literal.toList) : Legible (.number literal)
  | string (s : String) : Legible (.string (some s))
  | array {elements : List Json} (h : ∀ e ∈ elements, Legible e) : Legible (.array elements)
  | object {members : List (Option String × Json)} (names : ∀ m ∈ members, m.1.isSome = true)
      (h : ∀ m ∈ members, Legible m.2) : Legible (.object members)

theorem takeValue_array (hspace : isSpace c = false) (hc : c ≠ ']') :
    takeValue (steps + 1) ('[' :: c :: rest) =
      (takeElements steps (c :: rest)).map fun (es, rest) => (.array es, rest) := by
  rw [takeValue, skipSpace_cons rfl]
  simp only [skipSpace_cons hspace]
  split
  · rename_i h
    exact absurd (List.cons.inj h).1 hc
  · rfl

theorem takeValue_object : takeValue (steps + 1) ('\x7b' :: '"' :: rest) =
      (takeMembers steps ('"' :: rest)).map fun (ms, rest) => (.object ms, rest) := by
  rfl

theorem takeValue_number (hc : c = '-' ∨ c.isDigit = true) :
    takeValue (steps + 1) (c :: rest) =
      (takeNumber (c :: rest)).map fun (n, rest) => (.number (String.ofList n), rest) := by
  have hspace : isSpace c = false := by simp [isSpace, ne_of_minus_or_digit hc]
  rw [takeValue, skipSpace_cons hspace]
  -- no other token begins like a number
  split <;> simp_all

/-- Whether a document is read as it was written, wherever it stands, in as many steps as it has
characters. -/
def Returns (j : Json) : Prop :=
  ∀ steps rest, j.renderChars.length ≤ steps → Closes rest →
    takeValue steps (j.renderChars ++ rest) = some (j, rest)

/-- A legible value begins with a character that is no blank and closes nothing. -/
theorem Legible.renderChars_eq_cons {j : Json} (h : j.Legible) :
    ∃ c cs, j.renderChars = c :: cs ∧ isSpace c = false ∧ c ≠ ']' := by
  cases h with
  | null => exact ⟨_, _, rfl, rfl, by decide⟩
  | boolean b => cases b <;> exact ⟨_, _, rfl, rfl, by decide⟩
  | number h =>
    obtain ⟨c, cs, hcs, hc⟩ := head_of_takeNumber (h [] .nil)
    rw [List.append_nil] at hcs
    exact ⟨c, cs, hcs, by simp [isSpace, ne_of_minus_or_digit hc],
      ne_of_minus_or_digit hc (by decide) (by decide)⟩
  | string s => exact ⟨_, _, rfl, rfl, by decide⟩
  | array h => exact ⟨_, _, rfl, rfl, by decide⟩
  | object names h => exact ⟨_, _, rfl, rfl, by decide⟩

theorem Legible.length_pos {j : Json} (h : j.Legible) : 0 < j.renderChars.length := by
  obtain ⟨c, cs, hcs, -⟩ := h.renderChars_eq_cons
  rw [hcs]
  exact Nat.succ_pos _

/-- What is written of elements begins with the first of them. -/
theorem renderElements_cons (e : Json) (es : List Json) :
    ∃ tail, renderElements (e :: es) = e.renderChars ++ tail := by
  cases es with
  | nil => exact ⟨[], by rw [renderElements, List.append_nil]⟩
  | cons e' es => exact ⟨_, renderElements.eq_3 e (e' :: es) (List.cons_ne_nil e' es)⟩

/-- What is written of members begins with a quote. -/
theorem renderMembers_cons (m : Option String × Json) (ms : List (Option String × Json)) :
    ∃ tail, renderMembers (m :: ms) = '"' :: tail := by
  cases ms with
  | nil => exact ⟨_, rfl⟩
  | cons m' ms => exact ⟨_, renderMembers.eq_3 m.1 m.2 (m' :: ms) (List.cons_ne_nil m' ms)⟩

/-- Elements are read as they were written, if each of them is. Each has a character at least, which
pays for the step from it to the next one. -/
theorem takeElements_renderElements {es : List Json} (hne : es ≠ [])
    (h : ∀ e ∈ es, 0 < e.renderChars.length ∧ Returns e)
    (hsteps : (renderElements es).length < steps) :
    takeElements steps (renderElements es ++ ']' :: rest) = some (es, rest) := by
  induction es generalizing steps with
  | nil => exact absurd rfl hne
  | cons e es ih =>
    obtain ⟨⟨hpos, hreturns⟩, htail⟩ := List.forall_mem_cons.mp h
    obtain ⟨steps, rfl⟩ := Nat.exists_eq_succ_of_ne_zero (Nat.ne_zero_of_lt hsteps)
    cases es with
    | nil =>
      rw [renderElements] at hsteps ⊢
      have hvalue := hreturns steps (']' :: rest) (by omega) (.bracket rest)
      rw [takeElements, hvalue]
      rfl
    | cons e' es =>
      have hne' : e' :: es ≠ [] := List.cons_ne_nil e' es
      simp only [renderElements, List.length_append, List.length_cons] at hsteps
      -- the comma closes the first element and is the step to the others
      have hvalue := hreturns steps (',' :: (renderElements (e' :: es) ++ ']' :: rest)) (by omega)
        (.comma _)
      have hrest : takeElements steps (renderElements (e' :: es) ++ ']' :: rest) =
          some (e' :: es, rest) := ih hne' htail (by omega)
      rw [renderElements.eq_3 _ _ hne', List.append_assoc, List.cons_append, takeElements, hvalue]
      simp only [Option.bind_eq_bind, Option.bind_some, skipSpace_cons (c := ',') rfl, hrest]
      rfl

theorem takeMembers_last {name : String} {e : Json} (hreturns : Returns e)
    (hsteps : e.renderChars.length ≤ steps) :
    takeMembers (steps + 1) (renderString name ++ ':' :: e.renderChars ++ '\x7d' :: rest) =
      some ([(some name, e)], rest) := by
  have hvalue := hreturns steps ('\x7d' :: rest) hsteps (.brace rest)
  simp only [renderString, List.cons_append, List.append_assoc, List.nil_append, takeMembers,
    skipSpace_cons (c := '"') rfl, takeString_escaped, Option.bind_eq_bind, Option.bind_some,
    skipSpace_cons (c := ':') rfl, hvalue, skipSpace_cons (c := '\x7d') rfl]
  rfl

theorem takeMembers_more {name : String} {e : Json} {ms : List (Option String × Json)}
    {left : List Char} (hreturns : Returns e) (hsteps : e.renderChars.length ≤ steps)
    (h : takeMembers steps rest = some (ms, left)) :
    takeMembers (steps + 1) (renderString name ++ ':' :: e.renderChars ++ ',' :: rest) =
      some ((some name, e) :: ms, left) := by
  have hvalue := hreturns steps (',' :: rest) hsteps (.comma _)
  simp only [renderString, List.cons_append, List.append_assoc, List.nil_append, takeMembers,
    skipSpace_cons (c := '"') rfl, takeString_escaped, Option.bind_eq_bind, Option.bind_some,
    skipSpace_cons (c := ':') rfl, hvalue, skipSpace_cons (c := ',') rfl, h]
  rfl

/-- Members are read as they were written, if the value of each of them is. -/
theorem takeMembers_renderMembers {ms : List (Option String × Json)} (hne : ms ≠ [])
    (h : ∀ m ∈ ms, m.1.isSome = true ∧ Returns m.2) (hsteps : (renderMembers ms).length < steps) :
    takeMembers steps (renderMembers ms ++ '\x7d' :: rest) = some (ms, rest) := by
  induction ms generalizing steps with
  | nil => exact absurd rfl hne
  | cons m ms ih =>
    obtain ⟨⟨hname, hreturns⟩, htail⟩ := List.forall_mem_cons.mp h
    obtain ⟨name | name, e⟩ := m
    · cases hname
    obtain ⟨steps, rfl⟩ := Nat.exists_eq_succ_of_ne_zero (Nat.ne_zero_of_lt hsteps)
    change Returns e at hreturns
    cases ms with
    | nil =>
      rw [renderMembers, List.length_append, List.length_cons] at hsteps
      rw [renderMembers]
      exact takeMembers_last hreturns (by omega)
    | cons m' ms =>
      have hne' : m' :: ms ≠ [] := List.cons_ne_nil m' ms
      simp only [renderMembers, List.length_append, List.length_cons] at hsteps
      have hrest : takeMembers steps (renderMembers (m' :: ms) ++ '\x7d' :: rest) =
          some (m' :: ms, rest) := ih hne' htail (by omega)
      rw [renderMembers.eq_3 _ _ _ hne', List.append_assoc, List.cons_append]
      exact takeMembers_more hreturns (by omega) hrest

theorem returns_number {literal : String} (h : Literal literal.toList) :
    Returns (.number literal) := by
  rintro (_ | steps) rest hsteps hrest
  · have hnil : literal.toList = [] := List.length_eq_zero_iff.mp (Nat.le_zero.mp hsteps)
    have hnone := h [] .nil
    rw [hnil] at hnone
    cases hnone
  · obtain ⟨c, cs, hcs, hc⟩ := head_of_takeNumber (h rest hrest)
    rw [renderChars, hcs, takeValue_number hc, ← hcs, h rest hrest]
    simp only [Option.map_some, String.ofList_toList]

theorem returns_string (s : String) : Returns (.string (some s)) := by
  rintro (_ | steps) rest hsteps -
  · cases hsteps
  · simp only [renderChars, renderString, Option.getD_some, List.cons_append, List.append_assoc,
      List.nil_append, takeValue, skipSpace_cons (c := '"') rfl, takeString_escaped,
      Option.map_some]

theorem returns_array {es : List Json} (hlegible : ∀ e ∈ es, e.Legible)
    (h : ∀ e ∈ es, Returns e) : Returns (.array es) := by
  rintro (_ | steps) rest hsteps -
  · cases hsteps
  · cases es with
    | nil => rfl
    | cons e es =>
      obtain ⟨c, cs, hcs, hspace, hc⟩ := (hlegible e List.mem_cons_self).renderChars_eq_cons
      obtain ⟨tail, htail⟩ := renderElements_cons e es
      rw [hcs, List.cons_append] at htail
      have helements : takeElements steps (renderElements (e :: es) ++ ']' :: rest) =
          some (e :: es, rest) := by
        simp only [renderChars, List.length_append, List.length_cons, List.length_nil] at hsteps
        exact takeElements_renderElements (List.cons_ne_nil e es)
          (fun e he => ⟨(hlegible e he).length_pos, h e he⟩) (by omega)
      rw [htail, List.cons_append] at helements
      rw [renderChars, List.append_assoc, List.cons_append, List.singleton_append, htail,
        List.cons_append, takeValue_array hspace hc, helements, Option.map_some]

theorem returns_object {ms : List (Option String × Json)}
    (h : ∀ m ∈ ms, m.1.isSome = true ∧ Returns m.2) : Returns (.object ms) := by
  rintro (_ | steps) rest hsteps -
  · cases hsteps
  · cases ms with
    | nil => rfl
    | cons m ms =>
      obtain ⟨tail, htail⟩ := renderMembers_cons m ms
      have hmembers : takeMembers steps (renderMembers (m :: ms) ++ '\x7d' :: rest) =
          some (m :: ms, rest) := by
        simp only [renderChars, List.length_append, List.length_cons, List.length_nil] at hsteps
        exact takeMembers_renderMembers (List.cons_ne_nil m ms) h (by omega)
      rw [htail, List.cons_append] at hmembers
      rw [renderChars, List.append_assoc, List.cons_append, List.singleton_append, htail,
        List.cons_append, takeValue_object, hmembers, Option.map_some]

/-- A legible document is read as it was written wherever it stands: containers from within. -/
theorem Legible.returns {j : Json} (h : j.Legible) : Returns j := by
  induction h with
  | null =>
    rintro (_ | steps) rest hsteps hrest
    · cases hsteps
    · rfl
  | boolean b =>
    rintro (_ | steps) rest hsteps hrest
    · cases b <;> cases hsteps
    · cases b <;> rfl
  | number h => exact returns_number h
  | string s => exact returns_string s
  | array hes ih => exact returns_array hes ih
  | object names hms ih => exact returns_object fun m hm => ⟨names m hm, ih m hm⟩

/-- **A legible document is read as it was written.** -/
theorem parse_render {j : Json} (h : j.Legible) : parse j.render = some j := by
  have hreturns := h.returns (2 * j.renderChars.length + 1) [] (by omega) .nil
  rw [List.append_nil] at hreturns
  unfold parse render
  rw [String.toList_ofList]
  simp only [hreturns, Option.bind_eq_bind, Option.bind_some]
  rfl

/-! ## Building -/

theorem legible_text (s : String) : (text s).Legible := .string s

theorem legible_integer (n : Int) : (integer n).Legible := by
  refine .number ?_
  rw [Numeral.ofInt, String.toList_ofList]
  exact literal_signed n

theorem legible_optional {α : Type} {encode : α → Json} (h : ∀ a, (encode a).Legible)
    (o : Option α) : (optional encode o).Legible := by
  cases o with
  | none => exact .null
  | some a => exact h a

theorem legible_list {α : Type} {encode : α → Json} {as : List α}
    (h : ∀ a ∈ as, (encode a).Legible) : (list encode as).Legible :=
  .array (List.forall_mem_map.mpr h)

theorem legible_record {ms : List (String × Json)} (h : ∀ m ∈ ms, m.2.Legible) :
    (record ms).Legible :=
  .object (List.forall_mem_map.mpr fun _ _ => rfl) (List.forall_mem_map.mpr h)

end Lakehouse.Json
