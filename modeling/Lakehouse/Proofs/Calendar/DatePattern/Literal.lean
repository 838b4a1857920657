import Lakehouse.Proofs.Calendar.DatePattern.Compile
import Lakehouse.Proofs.Calendar.Instant
import Lakehouse.Proofs.Text.Letters

/-!
# Literals are read one for one

Fields are read from letters, digits and signs behind blanks. So a text that matches a pattern has
each other character exactly as often as the pattern spells it, just like a text that the pattern
wrote.

* `DatePattern.Foreign`: a character that no field is read from.
* `DatePattern.Field.count_of_read`: a field leaves every foreign character where it was.
* `DatePattern.readItems_count`: what items take of a foreign character is what their literals have.
* `DatePattern.count_of_read`: a text that is read has the foreign characters of its pattern.
-/

namespace Lakehouse.DatePattern

/-- A character that no field of a date is read from: neither a letter, a digit or a sign, nor a
blank. -/
structure Foreign (d : Char) : Prop where
  plain : isPlain d = false
  blank : Text.isBlank d = false

namespace Foreign

variable {d : Char}

theorem not_isDigit (hd : Foreign d) : d.isDigit = false := by
  have hplain := hd.plain
  simp only [isPlain, Char.isAlphanum, Bool.or_eq_false_iff] at hplain
  exact hplain.1.1.2

theorem not_isAlpha (hd : Foreign d) : d.isAlpha = false := by
  have hplain := hd.plain
  simp only [isPlain, Char.isAlphanum, Bool.or_eq_false_iff] at hplain
  exact hplain.1.1.1

theorem not_mem_of_isDigit (hd : Foreign d) {ds : List Char} (h : ∀ c ∈ ds, c.isDigit = true) :
    d ∉ ds := fun hmem => absurd (h d hmem) (by simp [hd.not_isDigit])

/-- A text that agrees with letters but for their case has no foreign character. -/
theorem not_mem_of_sameChars (hd : Foreign d) {letters cs : List Char}
    (hletters : ∀ c ∈ letters, c.isAlpha = true) (h : Text.sameChars letters cs = true) :
    d ∉ cs := by
  intro hmem
  have halpha := hletters d (Text.mem_of_sameChars hd.not_isAlpha h hmem)
  rw [hd.not_isAlpha] at halpha
  cases halpha

end Foreign

variable {d : Char}

/-! ## Fields -/

/-- What is taken off the front of a text, without the character, leaves all of it behind. -/
theorem count_drop_of_prefix {taken cs : List Char} (hstarts : taken <+: cs) (htaken : d ∉ taken) :
    (cs.drop taken.length).count d = cs.count d := by
  obtain ⟨rest, rfl⟩ := hstarts
  rw [List.drop_left, List.count_append, List.count_eq_zero.mpr htaken, Nat.zero_add]

theorem count_drop_of_not_mem_take {cs : List Char} {n : Nat} (h : d ∉ cs.take n) :
    (cs.drop n).count d = cs.count d := by
  have hsplit := congrArg (List.count d) (List.take_append_drop n cs)
  rwa [List.count_append, List.count_eq_zero.mpr h, Nat.zero_add] at hsplit

theorem takeNumber_count (hd : Foreign d) {width n : Nat} {cs rest : List Char}
    (h : takeNumber width cs = .ok (n, rest)) : rest.count d = cs.count d := by
  unfold takeNumber at h
  simp only [ite_error_eq_ok, ite_else_error_eq_ok] at h
  obtain ⟨-, -, -, h⟩ := h
  cases h
  refine count_drop_of_prefix ((List.takeWhile_prefix _).trans (List.take_prefix _ _)) ?_
  exact hd.not_mem_of_isDigit fun c hc => List.all_eq_true.mp List.all_takeWhile c hc

theorem takeField_count (hd : Foreign d) {width n : Nat} {cs rest : List Char}
    (h : takeField width cs = .ok (n, rest)) : rest.count d = cs.count d :=
  (takeNumber_count hd h).trans (Text.count_dropBlanks hd.blank cs)

theorem takeYear_count (hd : Foreign d) {n : Int} {cs rest : List Char}
    (h : takeYear cs = .ok (n, rest)) : rest.count d = cs.count d := by
  have hsigns : '-' ≠ d ∧ '+' ≠ d := by
    have hplain := hd.plain
    constructor
    · rintro rfl
      cases hplain
    · rintro rfl
      cases hplain
  rw [← Text.count_dropBlanks hd.blank cs]
  unfold takeYear at h
  split at h
  · rename_i digits hcs
    obtain ⟨⟨m, left⟩, htake, h⟩ := bind_eq_ok.mp h
    cases h
    rw [hcs, List.count_cons_of_ne hsigns.1]
    exact takeNumber_count hd htake
  · rename_i digits hcs
    obtain ⟨⟨m, left⟩, htake, h⟩ := bind_eq_ok.mp h
    cases h
    rw [hcs, List.count_cons_of_ne hsigns.2]
    exact takeNumber_count hd htake
  · obtain ⟨⟨m, left⟩, htake, h⟩ := bind_eq_ok.mp h
    cases h
    exact takeNumber_count hd htake

theorem takeDigits_count (hd : Foreign d) {width n : Nat} {cs rest : List Char}
    (h : takeDigits width cs = .ok (n, rest)) : rest.count d = cs.count d := by
  obtain ⟨-, hdigits, -, rfl⟩ := takeDigits_eq_ok.mp h
  exact count_drop_of_not_mem_take (hd.not_mem_of_isDigit hdigits)

/-- A list of names that are spelled with letters. -/
def Lettered (names : List String) : Prop := ∀ name ∈ names, ∀ c ∈ name.toList, c.isAlpha = true

theorem lettered_monthNames : Lettered monthNames := by
  have hall : monthNames.all (·.toList.all Char.isAlpha) = true := by decide
  exact fun name hname => List.all_eq_true.mp (List.all_eq_true.mp hall name hname)

theorem lettered_weekdayNames : Lettered weekdayNames := by
  have hall : weekdayNames.all (·.toList.all Char.isAlpha) = true := by decide
  exact fun name hname => List.all_eq_true.mp (List.all_eq_true.mp hall name hname)

theorem takeShortName_count (hd : Foreign d) {names : List String} (hnames : Lettered names)
    {i : Nat} {cs rest : List Char} (h : takeShortName names cs = .ok (i, rest)) :
    rest.count d = cs.count d := by
  unfold takeShortName at h
  obtain ⟨-, h⟩ := ite_error_eq_ok.mp h
  split at h
  · rename_i j hfind
    cases h
    obtain ⟨hlt, hsame, -⟩ := List.findIdx?_eq_some_iff_getElem.mp hfind
    refine count_drop_of_not_mem_take (hd.not_mem_of_sameChars (fun c hc => ?_) hsame)
    exact hnames _ (List.getElem_mem hlt) c (List.mem_of_mem_take hc)
  · cases h

theorem takeLongName_count (hd : Foreign d) {names : List String} (hnames : Lettered names)
    {i : Nat} {cs rest : List Char} (h : takeLongName names cs = .ok (i, rest)) :
    rest.count d = cs.count d := by
  unfold takeLongName at h
  obtain ⟨⟨j, left⟩, hshort, h⟩ := bind_eq_ok.mp h
  have hleft := takeShortName_count hd hnames hshort
  simp only at h
  split at h
  · rename_i hsame
    cases h
    refine Eq.trans (count_drop_of_not_mem_take (hd.not_mem_of_sameChars (fun c hc => ?_) hsame))
      hleft
    have hname := List.mem_of_mem_drop hc
    unfold nameAt at hname
    cases hentry : names[i]? with
    | none => simp [hentry] at hname
    | some name => exact hnames name (List.mem_of_getElem? hentry) c (by simpa [hentry] using hname)
  · cases h
    exact hleft

theorem takeHalf_count (hd : Foreign d) {n : Nat} {cs rest : List Char}
    (h : takeHalf cs = .ok (n, rest)) : rest.count d = cs.count d := by
  have hwords : ∀ c ∈ ['A', 'M', 'P', 'M'], c.isAlpha = true := List.all_eq_true.mp (by decide)
  unfold takeHalf at h
  obtain ⟨-, h⟩ := ite_error_eq_ok.mp h
  split at h
  · rename_i hmorning
    cases h
    exact count_drop_of_not_mem_take (hd.not_mem_of_sameChars
      (fun c hc => hwords c (List.mem_append_left ['P', 'M'] hc)) (Text.sameChars_symm hmorning))
  · obtain ⟨hevening, h⟩ := ite_else_error_eq_ok.mp h
    cases h
    exact count_drop_of_not_mem_take (hd.not_mem_of_sameChars
      (fun c hc => hwords c (List.mem_append_right ['A', 'M'] hc)) (Text.sameChars_symm hevening))

/-- **A field leaves every foreign character where it was.** -/
theorem Field.count_of_read (hd : Foreign d) {f : Field} {p q : Parts} {cs rest : List Char}
    (h : f.read p cs = .ok (q, rest)) : rest.count d = cs.count d := by
  cases f
  all_goals
    obtain ⟨⟨n, left⟩, htake, h⟩ := bind_eq_ok.mp h
    obtain ⟨parts, -, h⟩ := bind_eq_ok.mp h
    cases h
  case year => exact takeYear_count hd htake
  case monthShort => exact takeShortName_count hd lettered_monthNames htake
  case monthName => exact takeLongName_count hd lettered_monthNames htake
  case weekdayShort => exact takeShortName_count hd lettered_weekdayNames htake
  case weekdayName => exact takeLongName_count hd lettered_weekdayNames htake
  case half => exact takeHalf_count hd htake
  case fraction digits => exact takeDigits_count hd htake
  all_goals exact takeField_count hd htake

/-! ## Items -/

/-- How often a character stands in a literal. -/
def Item.literalCount (d : Char) : Item → Nat
  | literal cs => cs.count d
  | blanks | field _ => 0

theorem Item.count_of_read (hd : Foreign d) {item : Item} {p q : Parts} {cs rest : List Char}
    (h : item.read p cs = .ok (q, rest)) : cs.count d = item.literalCount d + rest.count d := by
  cases item with
  | blanks =>
    cases h
    simp [literalCount, Text.count_dropBlanks hd.blank]
  | literal expected =>
    simp only [read, ite_error_eq_ok, ite_else_error_eq_ok] at h
    obtain ⟨-, hstarts, h⟩ := h
    cases h
    obtain ⟨left, rfl⟩ := List.isPrefixOf_iff_prefix.mp hstarts
    rw [List.drop_left, List.count_append]
    rfl
  | field f =>
    rw [literalCount, Nat.zero_add]
    exact (Field.count_of_read hd h).symm

/-- **What items take of a foreign character is what their literals have of it.** -/
theorem readItems_count (hd : Foreign d) {items : List Item} {p q : Parts} {cs rest : List Char}
    (h : readItems p cs items = .ok (q, rest)) :
    cs.count d = (items.map (Item.literalCount d)).sum + rest.count d := by
  induction items generalizing p cs with
  | nil =>
    cases h
    simp
  | cons item more ih =>
    obtain ⟨⟨parts, left⟩, hitem, h⟩ := bind_eq_ok.mp h
    rw [Item.count_of_read hd hitem, ih h, List.map_cons, List.sum_cons, Nat.add_assoc]

/-- Joining literals to items loses none of them. -/
theorem literalCount_items (hd : Foreign d) (tokens : List Token) :
    ((items tokens).map (Item.literalCount d)).sum = tokens.count (.char d) := by
  induction tokens with
  | nil => rfl
  | cons token rest ih =>
    cases token with
    | field f => simpa [items, Item.literalCount] using ih
    | char c =>
      have hcount : (Token.char c :: rest).count (.char d) =
          [c].count d + ((items rest).map (Item.literalCount d)).sum := by
        rw [ih, Nat.add_comm]
        simp [List.count_cons]
      rw [hcount]
      by_cases hpercent : c = '%'
      · simp [items, hpercent, Item.literalCount]
      · by_cases hblank : Text.isBlank c = true
        · have hne : c ≠ d := by
            rintro rfl
            simp [hd.blank] at hblank
          rw [items, if_neg hpercent, if_pos hblank, List.count_singleton, if_neg (by simp [hne])]
          split
          · rename_i more hitems
            simp [hitems, Item.literalCount]
          · simp [Item.literalCount]
        · rw [items, if_neg hpercent, if_neg hblank]
          split
          · rename_i cs more hitems
            split
            · simp [hitems, Item.literalCount]
            · simp only [hitems, List.map_cons, List.sum_cons, Item.literalCount]
              rw [← Nat.add_assoc, ← List.count_append, List.singleton_append]
          · simp [Item.literalCount]

/-- A text that is read entirely has the foreign characters of the tokens. -/
theorem readAll_count (hd : Foreign d) {tokens : List Token} {cs : List Char} {p : Parts}
    (h : readAll (items tokens) cs = .ok p) : cs.count d = tokens.count (.char d) := by
  unfold readAll at h
  obtain ⟨⟨parts, rest⟩, hread, h⟩ := bind_eq_ok.mp h
  simp only at h
  split at h
  · rename_i hrest
    rw [readItems_count hd hread, literalCount_items hd, hrest]
    rfl
  · cases h

/-! ## Patterns -/

/-- What is appended to a text has the characters of what is appended to its pattern. -/
theorem count_lacking (hd : Foreign d) (tokens : List Token) :
    ((defaults tokens).flatMap fun (_, start) => separator :: start).count d =
      (lacking tokens).count (.char d) := by
  have hstart : ∀ m ∈ defaults tokens, m.2.count d = 0 := by
    have hdigits : '0' ≠ d ∧ '1' ≠ d := by
      have hdigit := hd.not_isDigit
      constructor
      · rintro rfl
        cases hdigit
      · rintro rfl
        cases hdigit
    intro m hm
    rcases mem_defaults.mp hm with ⟨rfl, -⟩ | ⟨rfl, -⟩ | ⟨rfl, -⟩ | ⟨rfl, -⟩ | ⟨rfl, -⟩
    all_goals simp [hdigits.1, hdigits.2]
  unfold lacking
  revert hstart
  induction defaults tokens with
  | nil => exact fun _ => rfl
  | cons m rest ih =>
    intro hstart
    have hm := hstart m List.mem_cons_self
    have hrest := ih fun m' hm' => hstart m' (List.mem_cons_of_mem m hm')
    simp only [List.flatMap_cons, List.count_append, hrest, List.count_cons, hm]
    simp

/-- **A text that is read has the foreign characters of its pattern**, each as often. -/
theorem count_of_read (hd : Foreign d) {p : DatePattern} {cs : List Char} {t : DateTime}
    (h : p.read cs = .ok t) : cs.count d = p.tokens.count (.char d) := by
  unfold read at h
  simp only at h
  obtain ⟨parts, hread, -⟩ := bind_eq_ok.mp h
  have hcount := readAll_count hd hread
  have hlacking := count_lacking hd p.tokens
  unfold lacking at hlacking
  rw [List.count_append, List.count_append, hlacking] at hcount
  exact Nat.add_right_cancel hcount

end Lakehouse.DatePattern

/-- A day is read from a text without foreign characters. -/
theorem Lakehouse.EpochDay.count_of_read {d : Char} (hd : DatePattern.Foreign d) {text : String}
    {day : Int32} (h : EpochDay.read text = .ok day) : text.toList.count d = 0 := by
  have hitems : isoItems = DatePattern.items DatePattern.days := by decide
  have hhyphen : '-' ≠ d := by
    have hplain := hd.plain
    rintro rfl
    cases hplain
  unfold read at h
  split at h
  · rename_i date hdate
    obtain ⟨parts, hread, -⟩ := bind_eq_ok.mp hdate
    rw [hitems] at hread
    rw [← Text.count_trim hd.blank, DatePattern.readAll_count hd hread]
    simp [DatePattern.days, hhyphen]
  · cases h
