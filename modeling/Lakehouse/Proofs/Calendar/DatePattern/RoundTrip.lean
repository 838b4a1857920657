import Lakehouse.Proofs.Calendar.DatePattern.Field

/-!
# Reading what a date pattern wrote

A clock time that was written by a pattern is read back by it, when the pattern spells a year and
the time is at the start of every period that the pattern does not spell.

* `DatePattern.readItems_write`: the items of some tokens read what the tokens wrote, entirely.
* `DatePattern.Spells`: when a pattern says everything about a clock time.
* `DatePattern.read_write`: what such a pattern wrote is read as the clock time.
-/

namespace Lakehouse.DatePattern

/-! ## Items and tokens -/

/-- The fields among some tokens. -/
def fields : List Token → List Field
  | [] => []
  | .char _ :: rest => fields rest
  | .field f :: rest => f :: fields rest

theorem fields_append (a b : List Token) : fields (a ++ b) = fields a ++ fields b := by
  induction a with
  | nil => rfl
  | cons token rest ih => cases token <;> simp [fields, ih]

theorem mem_fields {f : Field} {tokens : List Token} :
    f ∈ fields tokens ↔ Token.field f ∈ tokens := by
  induction tokens with
  | nil => simp [fields]
  | cons token rest ih => cases token <;> simp [fields, ih]

theorem mentions_iff {f : Field} {tokens : List Token} :
    mentions f tokens = true ↔ f ∈ fields tokens := by
  rw [mem_fields]
  unfold mentions
  exact List.contains_iff_mem

/-- Every field of some tokens says what it stands for and where it ends. -/
def Exact (t : DateTime) : List Token → Prop
  | [] => True
  | .char _ :: rest => Exact t rest
  | .field f :: rest => f.Exact t (rest.flatMap (Token.write t)) ∧ Exact t rest

/-- A year ends at the separator behind it, whatever its sign and its digits. -/
theorem exact_year_cons {t : DateTime} {separator : Char} {rest : List Token}
    (hseparator : separator.isDigit = false) (hrest : Exact t rest) :
    Exact t (.field .year :: .char separator :: rest) := by
  refine ⟨.inr fun c hc => ?_, hrest⟩
  cases hc
  exact hseparator

theorem readItems_cons (p : Parts) (cs : List Char) (item : Item) (rest : List Item) :
    readItems p cs (item :: rest) =
      (item.read p cs).bind fun next => readItems next.1 next.2 rest := rfl

/-- A literal character in front of text and item changes nothing about reading them. -/
theorem Item.read_literal_cons (p : Parts) (c : Char) (cs expected : List Char) :
    Item.read p (c :: cs) (.literal (c :: expected)) = Item.read p cs (.literal expected) := by
  have hcount : byteCount (c :: cs) < byteCount (c :: expected) ↔
      byteCount cs < byteCount expected := by
    simp [byteCount]
  simp only [Item.read, hcount, List.isPrefixOf, beq_self_eq_true, Bool.true_and,
    List.length_cons, List.drop_succ_cons]

theorem Item.read_literal_single (p : Parts) (c : Char) (cs : List Char) :
    Item.read p (c :: cs) (.literal [c]) = .ok (p, cs) := by
  rw [Item.read_literal_cons]
  simp [Item.read, byteCount]

theorem readItems_literal_single (p : Parts) (c : Char) (cs : List Char) (more : List Item) :
    readItems p (c :: cs) (.literal [c] :: more) = readItems p cs more := by
  rw [readItems_cons, Item.read_literal_single]
  rfl

/-- Text that no blank item reads starts with no blank. -/
theorem dropBlanks_write {t : DateTime} (ht : t.date.Valid) {tokens : List Token}
    (hblanks : ∀ more, items tokens ≠ .blanks :: more) :
    Text.dropBlanks (tokens.flatMap (Token.write t)) = tokens.flatMap (Token.write t) := by
  match tokens with
  | [] => rfl
  | .field f :: rest =>
    obtain ⟨c, cs, hcs⟩ := List.exists_cons_of_ne_nil (f.write_ne_nil ht)
    have hc := isBlank_of_isPlain (Field.isPlain_of_mem_write (hcs ▸ List.mem_cons_self))
    rw [List.flatMap_cons, Token.write, hcs, List.cons_append, Text.dropBlanks_cons _ hc]
  | .char c :: rest =>
    rw [List.flatMap_cons, Token.write, List.singleton_append]
    cases hc : Text.isBlank c with
    | false => exact Text.dropBlanks_cons _ hc
    | true =>
      have hpercent : c ≠ '%' := fun h => absurd (h ▸ hc) (by decide)
      simp only [items, if_neg hpercent, hc, if_true] at hblanks
      split at hblanks <;> exact absurd rfl (hblanks _)

/-- **The items of a literal character read it**, whatever item it was joined to. -/
theorem readItems_char {t : DateTime} (ht : t.date.Valid) (p : Parts) (c : Char)
    (rest : List Token) :
    readItems p (c :: rest.flatMap (Token.write t)) (items (.char c :: rest)) =
      readItems p (rest.flatMap (Token.write t)) (items rest) := by
  have hsingle : readItems p (c :: rest.flatMap (Token.write t)) (.literal [c] :: items rest) =
      readItems p (rest.flatMap (Token.write t)) (items rest) :=
    readItems_literal_single p c _ _
  by_cases hpercent : c = '%'
  · rw [items, if_pos hpercent, ← hpercent]
    exact hsingle
  · rw [items, if_neg hpercent]
    by_cases hblank : Text.isBlank c = true
    · rw [if_pos hblank]
      have hskip : Text.dropBlanks (c :: rest.flatMap (Token.write t)) =
          Text.dropBlanks (rest.flatMap (Token.write t)) := List.dropWhile_cons_of_pos hblank
      split
      · rename_i more hitems
        rw [hitems, readItems_cons, readItems_cons]
        simp only [Item.read, hskip]
      · rename_i hitems
        rw [readItems_cons]
        simp only [Item.read, hskip]
        rw [dropBlanks_write ht hitems]
        rfl
    · rw [if_neg hblank]
      split
      · rename_i cs more hitems
        split
        · rw [← hitems]
          exact hsingle
        · rw [hitems, readItems_cons, readItems_cons, Item.read_literal_cons]
      · exact hsingle

/-- **The items of some tokens read what the tokens wrote**, entirely. -/
theorem readItems_write {t : DateTime} (ht : t.Valid) {tokens : List Token}
    (hexact : Exact t tokens) (fs : List Field) :
    readItems (Parts.told t fs) (tokens.flatMap (Token.write t)) (items tokens) =
      .ok (Parts.told t (fs ++ fields tokens), []) := by
  induction tokens generalizing fs with
  | nil => simp [items, readItems, fields]
  | cons token rest ih =>
    cases token with
    | char c =>
      rw [List.flatMap_cons, Token.write, List.singleton_append, readItems_char ht.date]
      exact ih hexact fs
    | field f =>
      rw [List.flatMap_cons, Token.write, items, readItems_cons]
      simp only [Item.read]
      rw [Field.read_write ht hexact.1]
      simp only [Except.bind]
      rw [ih hexact.2, fields, List.append_assoc, List.singleton_append]

/-- Tokens are read as the fields among them. -/
theorem readAll_write {t : DateTime} (ht : t.Valid) {tokens : List Token}
    (hexact : Exact t tokens) :
    readAll (items tokens) (tokens.flatMap (Token.write t)) =
      .ok (Parts.told t (fields tokens)) := by
  unfold readAll
  rw [← Parts.told_nil t, readItems_write ht hexact []]
  rfl

/-! ## The parts together -/

/-- Some fields of a clock time tell its date. -/
structure TellsDate (t : DateTime) (fs : List Field) : Prop where
  year : .year ∈ fs
  /-- The year of a century stands beside no negative year. -/
  century : .yearOfCentury ∈ fs → 0 ≤ t.date.year
  month : .month ∈ fs ∨ .monthShort ∈ fs ∨ .monthName ∈ fs
  day : .day ∈ fs

/-- Some fields of a clock time tell its time of day. -/
structure TellsTime (t : DateTime) (fs : List Field) : Prop where
  hour : .hour ∈ fs ∨ (.hourOfHalf ∈ fs ∧ .half ∈ fs)
  minute : .minute ∈ fs
  second : .second ∈ fs
  nanos : t.nanos = 0 ∨ .fraction 3 ∈ fs ∨ .fraction 6 ∈ fs ∨ .fraction 9 ∈ fs

theorem TellsDate.tell_month {t : DateTime} {fs : List Field} (h : TellsDate t fs) :
    (Parts.told t fs).month = some t.date.month := by
  rcases h.month with hread | hread | hread
  · exact tell_eq_some (by simp) hread _
  · exact tell_eq_some (by simp) hread _
  · exact tell_eq_some (by simp) hread _

theorem TellsDate.resolveYear_told {t : DateTime} {fs : List Field} (h : TellsDate t fs) :
    (Parts.told t fs).resolveYear = .ok t.date.year := by
  have hyear : (Parts.told t fs).year = some t.date.year := tell_eq_some (by simp) h.year _
  unfold Parts.resolveYear
  rw [hyear]
  cases hcentury : (Parts.told t fs).yearOfCentury with
  | none => rfl
  | some r =>
    have hread : .yearOfCentury ∈ fs := by
      by_cases hread : Field.yearOfCentury ∈ fs
      · exact hread
      · simp [Parts.told, tell, hread] at hcentury
    have hr : r = (t.date.year % 100).toNat := by
      rw [show (Parts.told t fs).yearOfCentury = some _ from tell_eq_some (by simp) hread _]
        at hcentury
      exact (Option.some.inj hcentury).symm
    have hpos := h.century hread
    exact if_pos ⟨hpos, by omega⟩

/-- Fields that tell a date give it. -/
theorem TellsDate.date_told {t : DateTime} {fs : List Field} (h : TellsDate t fs) (ht : t.Valid) :
    (Parts.told t fs).date = .ok t.date := by
  have hday : (Parts.told t fs).day = some t.date.day := tell_eq_some (by simp) h.day _
  have hweekday : (Parts.told t fs).weekday.all (· == t.date.weekday) = true := by
    simp only [Parts.told, tell]
    split <;> simp
  unfold Parts.date
  simp only [h.resolveYear_told, h.tell_month, hday, Date.make?_of_valid ht.date ht.range,
    hweekday, bind, Except.bind]
  rfl

/-- **Fields that tell a clock time give it.** -/
theorem dateTime_told {t : DateTime} {fs : List Field} (hdate : TellsDate t fs)
    (htime : TellsTime t fs) (ht : t.Valid) : (Parts.told t fs).dateTime = .ok t := by
  have hhalf : (Parts.told t fs).half = some (t.hour / 12) := by
    rcases htime.hour with hread | ⟨-, hread⟩ <;> exact tell_eq_some (by simp) hread _
  have hhour : (Parts.told t fs).hourOfHalf = some (t.hour % 12) := by
    rcases htime.hour with hread | ⟨hread, -⟩ <;> exact tell_eq_some (by simp) hread _
  have hminute : (Parts.told t fs).minute = some t.minute :=
    tell_eq_some (by simp) htime.minute _
  have hsecond : (Parts.told t fs).second = some t.second :=
    tell_eq_some (by simp) htime.second _
  have hnanos : (Parts.told t fs).nanos.getD 0 = t.nanos := by
    rcases htime.nanos with hzero | hread | hread | hread
    · simp only [Parts.told, tell, hzero]
      split <;> rfl
    · rw [show (Parts.told t fs).nanos = some t.nanos from tell_eq_some (by simp) hread _]
      rfl
    · rw [show (Parts.told t fs).nanos = some t.nanos from tell_eq_some (by simp) hread _]
      rfl
    · rw [show (Parts.told t fs).nanos = some t.nanos from tell_eq_some (by simp) hread _]
      rfl
  have hleap : t.second ≠ 60 := by
    have := ht.second
    omega
  have hours : t.hour / 12 * 12 + t.hour % 12 = t.hour := by omega
  unfold Parts.dateTime
  simp only [hdate.date_told ht, hhalf, hhour, hminute, hsecond, hnanos, bind, Except.bind]
  rw [if_neg hleap, hours]

/-! ## Fields that the pattern lacks -/

/-- The defaults of a pattern, one by one. -/
theorem mem_defaults {tokens : List Token} {m : Field × List Char} :
    m ∈ defaults tokens ↔
      (m = (.month, ['0', '1']) ∧ .month ∉ fields tokens ∧ .monthShort ∉ fields tokens ∧
        .monthName ∉ fields tokens) ∨
      (m = (.day, ['0', '1']) ∧ .day ∉ fields tokens) ∨
      (m = (.hour, ['0', '0']) ∧ .hour ∉ fields tokens ∧ .hourOfHalf ∉ fields tokens) ∨
      (m = (.minute, ['0', '0']) ∧ .minute ∉ fields tokens) ∨
      (m = (.second, ['0', '0']) ∧ .second ∉ fields tokens) := by
  simp only [defaults, List.mem_filterMap, List.mem_cons, List.not_mem_nil, or_false,
    exists_eq_or_imp, exists_eq_left]
  simp only [List.any_cons, List.any_nil, Bool.or_false, Bool.or_eq_true, mentions_iff,
    Option.ite_none_left_eq_some, Option.some.injEq, not_or, eq_comm (b := m),
    and_comm (b := m = _)]

/-- The tokens that stand for the fields a pattern lacks. -/
def lacking (tokens : List Token) : List Token :=
  (defaults tokens).flatMap fun (field, _) => [.char separator, .field field]

theorem fields_lacking (tokens : List Token) :
    fields (lacking tokens) = (defaults tokens).map (·.1) := by
  unfold lacking
  induction defaults tokens with
  | nil => rfl
  | cons m rest ih => simp [fields, ih]

/-- What is appended to a text is what the lacking fields write, at the start of each period. -/
theorem flatMap_lacking {t : DateTime} {tokens : List Token}
    (hstart : ∀ m ∈ defaults tokens, m.1.write t = m.2) :
    (defaults tokens).flatMap (fun (_, start) => separator :: start) =
      (lacking tokens).flatMap (Token.write t) := by
  unfold lacking
  revert hstart
  induction defaults tokens with
  | nil => exact fun _ => rfl
  | cons m rest ih =>
    intro hstart
    have hm := hstart m List.mem_cons_self
    simp [Token.write, hm, ih fun m' hm' => hstart m' (List.mem_cons_of_mem m hm')]

/-- The fields that are spelled and those that are lacking. -/
def allFields (tokens : List Token) : List Field := fields (tokens ++ lacking tokens)

theorem mem_allFields {f : Field} {tokens : List Token} :
    f ∈ allFields tokens ↔ f ∈ fields tokens ∨ ∃ start, (f, start) ∈ defaults tokens := by
  simp [allFields, fields_append, fields_lacking]

/-- A pattern that spells a year tells the date. -/
theorem tellsDate_allFields {t : DateTime} {tokens : List Token} (hyear : .year ∈ fields tokens)
    (hcentury : .yearOfCentury ∈ fields tokens → 0 ≤ t.date.year) :
    TellsDate t (allFields tokens) where
  year := mem_allFields.mpr (.inl hyear)
  century h := by
    rcases mem_allFields.mp h with hspelled | ⟨start, hlacking⟩
    · exact hcentury hspelled
    · simp [mem_defaults] at hlacking
  month := by
    simp only [mem_allFields, mem_defaults]
    by_cases h : .month ∉ fields tokens ∧ .monthShort ∉ fields tokens ∧ .monthName ∉ fields tokens
    · exact .inl (.inr ⟨_, .inl ⟨rfl, h⟩⟩)
    · grind
  day := by
    simp only [mem_allFields, mem_defaults]
    by_cases h : .day ∈ fields tokens
    · exact .inl h
    · exact .inr ⟨_, .inr (.inl ⟨rfl, h⟩)⟩

/-- A pattern tells the time of day: what it does not spell is lacking. -/
theorem tellsTime_allFields {t : DateTime} {tokens : List Token}
    (hhalf : .hourOfHalf ∈ fields tokens → .half ∈ fields tokens)
    (hnanos : t.nanos = 0 ∨ .fraction 3 ∈ fields tokens ∨ .fraction 6 ∈ fields tokens ∨
      .fraction 9 ∈ fields tokens) : TellsTime t (allFields tokens) where
  hour := by
    simp only [mem_allFields, mem_defaults]
    by_cases h : .hour ∉ fields tokens ∧ .hourOfHalf ∉ fields tokens
    · exact .inl (.inr ⟨_, .inr (.inr (.inl ⟨rfl, h⟩))⟩)
    · grind
  minute := by
    simp only [mem_allFields, mem_defaults]
    by_cases h : .minute ∈ fields tokens
    · exact .inl h
    · exact .inr ⟨_, .inr (.inr (.inr (.inl ⟨rfl, h⟩)))⟩
  second := by
    simp only [mem_allFields, mem_defaults]
    by_cases h : .second ∈ fields tokens
    · exact .inl h
    · exact .inr ⟨_, .inr (.inr (.inr (.inr ⟨rfl, h⟩)))⟩
  nanos := by
    simp only [mem_allFields]
    grind

/-! ## Patterns that say everything -/

/-- A pattern says everything about a clock time: it spells a year, and the time is at the start
of every period that it does not spell. -/
structure Spells (p : DatePattern) (t : DateTime) : Prop where
  year : .year ∈ fields p.tokens
  century : .yearOfCentury ∈ fields p.tokens → 0 ≤ t.date.year
  half : .hourOfHalf ∈ fields p.tokens → .half ∈ fields p.tokens
  nanos : t.nanos = 0 ∨ .fraction 3 ∈ fields p.tokens ∨ .fraction 6 ∈ fields p.tokens ∨
    .fraction 9 ∈ fields p.tokens
  exact : Exact t (p.tokens ++ lacking p.tokens)
  start : ∀ m ∈ defaults p.tokens, m.1.write t = m.2

/-- **What a pattern wrote is read as the clock time**, if the pattern says everything about
it. -/
theorem read_write {p : DatePattern} {t : DateTime} (ht : t.Valid) (h : p.Spells t) :
    p.read (p.write t) = .ok t := by
  have htext : p.write t ++ (defaults p.tokens).flatMap (fun (_, start) => separator :: start) =
      (p.tokens ++ lacking p.tokens).flatMap (Token.write t) := by
    rw [flatMap_lacking h.start, List.flatMap_append]
    rfl
  unfold read
  simp only [htext]
  change (readAll (items (p.tokens ++ lacking p.tokens)) _).bind Parts.dateTime = _
  rw [readAll_write ht h.exact]
  exact dateTime_told (tellsDate_allFields h.year h.century)
    (tellsTime_allFields h.half h.nanos) ht

end Lakehouse.DatePattern
