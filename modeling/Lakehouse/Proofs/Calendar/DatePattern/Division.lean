import Lakehouse.Proofs.Calendar.DatePattern.Compile
import Lakehouse.Proofs.Calendar.Instant
import Mathlib

/-!
# A date pattern means what it spells

A text divides from left to right, in one way only, into quotes, sections between quotes, runs of
one letter and other characters. The division alone says whether the text is a pattern, and what a
date looks like in it.

* `DatePattern.Divided`: the pieces of a text.
* `DatePattern.Divided.exists`, `DatePattern.Divided.unique`: every text has one division.
* `DatePattern.Divided.scan_eq_ok`, `DatePattern.Divided.scan_eq_error`: scanning finds the tokens
  of the pieces, or a piece that has none.
* `DatePattern.compiles_and_writes_by_pieces`: which texts are patterns, and how they are filled in.

About `DatePattern::compile` and `DatePattern::format_millis`, which are modelled in
`Calendar.DatePattern`.
-/

namespace Lakehouse.DatePattern

/-! ## Pieces -/

/-- A piece of the text of a pattern. -/
inductive Piece where
  /-- Two quotes in a row, outside a section. -/
  | quote
  /-- A section between quotes. -/
  | quoted (inside : List Char)
  /-- A section that does not end. -/
  | unclosed (inside : List Char)
  /-- A run of one letter, as long as it goes. -/
  | run (letter : Char) (length : Nat)
  /-- A character that is neither a quote nor a letter. -/
  | other (c : Char)
  deriving DecidableEq, Repr

/-- How a text divides into pieces, from left to right. -/
inductive Divided : List Char → List Piece → Prop where
  | nil : Divided [] []
  | quote {rest : List Char} {pieces : List Piece} :
      Divided rest pieces → Divided ('\'' :: '\'' :: rest) (.quote :: pieces)
  | quoted {inside rest : List Char} {pieces : List Piece} :
      inside ≠ [] → '\'' ∉ inside → Divided rest pieces →
        Divided ('\'' :: (inside ++ '\'' :: rest)) (.quoted inside :: pieces)
  | unclosed {inside : List Char} :
      '\'' ∉ inside → Divided ('\'' :: inside) [.unclosed inside]
  | run {letter : Char} {more : Nat} {rest : List Char} {pieces : List Piece} :
      letter.isAlpha = true → rest.head? ≠ some letter → Divided rest pieces →
        Divided (letter :: (List.replicate more letter ++ rest)) (.run letter (more + 1) :: pieces)
  | other {c : Char} {rest : List Char} {pieces : List Piece} :
      c ≠ '\'' → c.isAlpha = false → Divided rest pieces → Divided (c :: rest) (.other c :: pieces)

/-- The runs of letters that stand for a field. -/
def Supported (letter : Char) (length : Nat) : Prop :=
  letter ∈ ['y', 'M', 'd', 'H', 'h', 'm', 's', 'a', 'E'] ∨
    letter = 'S' ∧ (length = 3 ∨ length = 6 ∨ length = 9)

/-- What makes a text no pattern: a section that does not end, a run of letters that stands for no
field, or an hour of the half day without its half. -/
inductive Flawed (pieces : List Piece) : Prop where
  | unclosed {inside : List Char} : .unclosed inside ∈ pieces → Flawed pieces
  | unsupported {letter : Char} {length : Nat} :
      .run letter length ∈ pieces → ¬Supported letter length → Flawed pieces
  | hourWithoutHalf {length : Nat} :
      .run 'h' length ∈ pieces → (∀ half, .run 'a' half ∉ pieces) → Flawed pieces

/-- What a run of letters says of a date. -/
def runText (t : DateTime) (letter : Char) (length : Nat) : List Char :=
  match letter with
  | 'y' => if length = 2 then Numeral.padded 2 (t.date.year % 100).toNat
    else Date.yearChars t.date.year
  | 'M' => if length ≤ 2 then Numeral.padded 2 t.date.month
    else if length = 3 then (nameAt monthNames (t.date.month - 1)).take 3
    else nameAt monthNames (t.date.month - 1)
  | 'd' => Numeral.padded 2 t.date.day
  | 'H' => Numeral.padded 2 t.hour
  | 'h' => Numeral.padded 2 (if t.hour % 12 = 0 then 12 else t.hour % 12)
  | 'm' => Numeral.padded 2 t.minute
  | 's' => Numeral.padded 2 t.second
  | 'S' => Numeral.padded length (t.nanos % 1000000000 / 10 ^ (9 - length))
  | 'a' => if t.hour < 12 then ['A', 'M'] else ['P', 'M']
  | 'E' => if length ≤ 3 then (nameAt weekdayNames t.date.weekday).take 3
    else nameAt weekdayNames t.date.weekday
  | _ => []

/-- A piece, filled in for a date: quoted text and other characters as they are, and what a run of
letters says. -/
def Piece.write (t : DateTime) : Piece → List Char
  | quote => ['\'']
  | quoted inside => inside
  | unclosed inside => inside
  | run letter length => runText t letter length
  | other c => [c]

/-! ## One division -/

/-- A text without quotes in front of a quote is told by the whole. -/
theorem eq_of_append_quote {a b as bs : List Char} (ha : '\'' ∉ a) (hb : '\'' ∉ b)
    (h : a ++ '\'' :: as = b ++ '\'' :: bs) : a = b ∧ as = bs := by
  induction a generalizing b with
  | nil =>
    cases b with
    | nil => exact ⟨rfl, (List.cons.inj h).2⟩
    | cons c b => exact absurd ((List.cons.inj h).1 ▸ List.mem_cons_self) hb
  | cons c a ih =>
    cases b with
    | nil => exact absurd ((List.cons.inj h).1 ▸ List.mem_cons_self) ha
    | cons d b =>
      obtain ⟨hcd, h⟩ := List.cons.inj h
      obtain ⟨hab, hrest⟩ := ih (fun hc => ha (List.mem_cons_of_mem c hc))
        (fun hc => hb (List.mem_cons_of_mem d hc)) h
      exact ⟨hcd ▸ hab ▸ rfl, hrest⟩

/-- A run that goes as far as it can is told by the whole. -/
theorem eq_of_append_run {letter : Char} {m n : Nat} {as bs : List Char}
    (ha : as.head? ≠ some letter) (hb : bs.head? ≠ some letter)
    (h : List.replicate m letter ++ as = List.replicate n letter ++ bs) : m = n ∧ as = bs := by
  induction m generalizing n with
  | zero =>
    cases n with
    | zero => exact ⟨rfl, h⟩
    | succ n => exact absurd (by rw [show as = _ from h]; rfl) ha
  | succ m ih =>
    cases n with
    | zero => exact absurd (by rw [show bs = _ from h.symm]; rfl) hb
    | succ n =>
      obtain ⟨rfl, rfl⟩ := ih (List.cons.inj h).2
      exact ⟨rfl, rfl⟩

/-- A quote starts two quotes in a row, a section, or a section that does not end. -/
theorem Divided.of_quote {cs : List Char} {pieces : List Piece} (h : Divided ('\'' :: cs) pieces) :
    (∃ rest more, cs = '\'' :: rest ∧ pieces = .quote :: more ∧ Divided rest more) ∨
      (∃ inside rest more, inside ≠ [] ∧ '\'' ∉ inside ∧ cs = inside ++ '\'' :: rest ∧
        pieces = .quoted inside :: more ∧ Divided rest more) ∨
      ('\'' ∉ cs ∧ pieces = [.unclosed cs]) := by
  cases h with
  | quote h => exact .inl ⟨_, _, rfl, rfl, h⟩
  | quoted hne hinside h => exact .inr (.inl ⟨_, _, _, hne, hinside, rfl, rfl, h⟩)
  | unclosed hinside => exact .inr (.inr ⟨hinside, rfl⟩)
  | run halpha => exact absurd halpha (by decide)
  | other hquote => exact absurd rfl hquote

/-- A letter starts a run of it. -/
theorem Divided.of_letter {c : Char} {cs : List Char} {pieces : List Piece}
    (hc : c.isAlpha = true) (h : Divided (c :: cs) pieces) :
    ∃ more rest tail, cs = List.replicate more c ++ rest ∧ rest.head? ≠ some c ∧
      pieces = .run c (more + 1) :: tail ∧ Divided rest tail := by
  cases h with
  | run _ hrest h => exact ⟨_, _, _, rfl, hrest, rfl, h⟩
  | other _ halpha => exact absurd hc (by simp [halpha])
  | quote | quoted | unclosed => exact absurd hc (by decide)

/-- **A text has at most one division.** -/
theorem Divided.unique {cs : List Char} {pieces others : List Piece} (h : Divided cs pieces)
    (h' : Divided cs others) : pieces = others := by
  induction h generalizing others with
  | nil =>
    cases h'
    rfl
  | @quote rest pieces _ ih =>
    rcases h'.of_quote with ⟨_, _, hcs, rfl, h'⟩ | ⟨_, _, _, hne, hinside, hcs, -⟩ | ⟨hcs, -⟩
    · cases hcs
      rw [ih h']
    · exact absurd (eq_of_append_quote List.not_mem_nil hinside hcs).1.symm hne
    · exact absurd List.mem_cons_self hcs
  | @quoted inside rest pieces hne hinside _ ih =>
    rcases h'.of_quote with ⟨_, _, hcs, -⟩ | ⟨_, _, _, -, hinside', hcs, rfl, h'⟩ | ⟨hcs, -⟩
    · exact absurd (eq_of_append_quote hinside List.not_mem_nil hcs).1 hne
    · obtain ⟨rfl, rfl⟩ := eq_of_append_quote hinside hinside' hcs
      rw [ih h']
    · exact absurd (List.mem_append_right inside List.mem_cons_self) hcs
  | unclosed hinside =>
    rcases h'.of_quote with ⟨_, _, rfl, -⟩ | ⟨_, _, _, -, -, rfl, -⟩ | ⟨-, rfl⟩
    · exact absurd List.mem_cons_self hinside
    · exact absurd (List.mem_append_right _ List.mem_cons_self) hinside
    · rfl
  | run halpha hrest _ ih =>
    obtain ⟨_, _, _, hcs, hrest', rfl, h'⟩ := h'.of_letter halpha
    obtain ⟨rfl, rfl⟩ := eq_of_append_run hrest hrest' hcs
    rw [ih h']
  | other hquote halpha _ ih =>
    cases h' with
    | other _ _ h' => rw [ih h']
    | run halpha' => exact absurd halpha' (by simp [halpha])
    | quote | quoted | unclosed => exact absurd rfl hquote

/-- The text behind a quote goes on with a quote, has one later on, or has none. -/
theorem exists_section (cs : List Char) :
    (∃ rest, cs = '\'' :: rest) ∨
      (∃ inside rest, inside ≠ [] ∧ '\'' ∉ inside ∧ cs = inside ++ '\'' :: rest) ∨ '\'' ∉ cs := by
  by_cases hquote : '\'' ∈ cs
  · obtain ⟨inside, rest, rfl, hinside⟩ := List.eq_append_cons_of_mem hquote
    cases inside with
    | nil => exact .inl ⟨rest, rfl⟩
    | cons c inside => exact .inr (.inl ⟨_, rest, List.cons_ne_nil c inside, hinside, rfl⟩)
  · exact .inr (.inr hquote)

/-- A text starts with as many of a letter as it can. -/
theorem exists_run (c : Char) (cs : List Char) :
    ∃ more rest, cs = List.replicate more c ++ rest ∧ rest.head? ≠ some c := by
  refine ⟨_, cs.dropWhile (· == c), eq_replicate_append c cs, fun hhead => ?_⟩
  have hstop := List.head?_dropWhile_not (· == c) cs
  rw [hhead] at hstop
  simp at hstop

/-- **A text has a division.** -/
theorem Divided.exists (cs : List Char) : ∃ pieces, Divided cs pieces := by
  induction hlength : cs.length using Nat.strongRecOn generalizing cs with
  | ind n ih =>
    cases cs with
    | nil => exact ⟨[], .nil⟩
    | cons c cs =>
      have hnext : ∀ rest : List Char, rest.length ≤ cs.length → ∃ pieces, Divided rest pieces :=
        fun rest hrest => ih _ (by rw [← hlength, List.length_cons]; omega) rest rfl
      by_cases hquote : c = '\''
      · subst hquote
        rcases exists_section cs with ⟨rest, rfl⟩ | ⟨inside, rest, hne, hinside, rfl⟩ | hcs
        · obtain ⟨pieces, h⟩ := hnext rest (by simp)
          exact ⟨_, .quote h⟩
        · obtain ⟨pieces, h⟩ := hnext rest (by simp; omega)
          exact ⟨_, .quoted hne hinside h⟩
        · exact ⟨_, .unclosed hcs⟩
      · cases halpha : c.isAlpha with
        | true =>
          obtain ⟨more, rest, rfl, hrest⟩ := exists_run c cs
          obtain ⟨pieces, h⟩ := hnext rest (by simp)
          exact ⟨_, .run halpha hrest h⟩
        | false =>
          obtain ⟨pieces, h⟩ := hnext cs (Nat.le_refl _)
          exact ⟨_, .other hquote halpha h⟩

/-! ## Scanning -/

/-- The tokens of a piece. -/
def Piece.tokens : Piece → List Token
  | quote => [.char '\'']
  | quoted inside => inside.map .char
  | unclosed inside => inside.map .char
  | run letter length => ((Field.ofRun? letter length).map .field).toList
  | other c => [.char c]

/-- A piece that stands for tokens: neither a section that does not end nor a run of letters that
is no field. -/
def Piece.Sound : Piece → Prop
  | unclosed _ => False
  | run letter length => ∃ f, Field.ofRun? letter length = some f
  | _ => True

theorem bne_quote {inside : List Char} (h : '\'' ∉ inside) : ∀ c ∈ inside, (c != '\'') = true := by
  intro c hc
  rw [bne_iff_ne]
  rintro rfl
  exact h hc

/-- A section between quotes is scanned as its characters. -/
theorem scan_quoted {inside : List Char} (hne : inside ≠ []) (hinside : '\'' ∉ inside)
    (rest : List Char) :
    scan ('\'' :: (inside ++ '\'' :: rest)) = do return inside.map .char ++ (← scan rest) := by
  have htaken : (inside ++ '\'' :: rest).takeWhile (· != '\'') = inside := by
    rw [List.takeWhile_append_of_pos (bne_quote hinside)]
    simp
  have hdropped : (inside ++ '\'' :: rest).dropWhile (· != '\'') = '\'' :: rest := by
    rw [List.dropWhile_append_of_pos (bne_quote hinside)]
    simp
  rw [scan]
  · split
    · rename_i h
      rw [hdropped] at h
      cases h
    · rename_i h
      rw [hdropped] at h
      cases h
      rw [htaken]
  · intro more h
    exact absurd (eq_of_append_quote hinside List.not_mem_nil h).1 hne

theorem scan_unclosed {inside : List Char} (hinside : '\'' ∉ inside) :
    scan ('\'' :: inside) = .error .unterminatedQuote := by
  have hdropped : inside.dropWhile (· != '\'') = [] := by
    rw [← List.append_nil inside, List.dropWhile_append_of_pos (bne_quote hinside)]
    rfl
  rw [scan]
  · split
    · rfl
    · rename_i h
      rw [hdropped] at h
      cases h
  · rintro more rfl
    exact absurd List.mem_cons_self hinside

/-- A run of letters is scanned as its field. -/
theorem scan_run {letter : Char} {more : Nat} {rest : List Char} (halpha : letter.isAlpha = true)
    (hrest : rest.head? ≠ some letter) :
    scan (letter :: (List.replicate more letter ++ rest)) =
      match Field.ofRun? letter (more + 1) with
      | none => .error (.unsupportedRun letter (more + 1))
      | some f => do return .field f :: (← scan rest) := by
  have hpass : ∀ c ∈ List.replicate more letter, (c == letter) = true := fun c hc =>
    beq_iff_eq.mpr (List.eq_of_mem_replicate hc)
  have htaken : (List.replicate more letter ++ rest).takeWhile (· == letter) =
      List.replicate more letter := by
    rw [List.takeWhile_append_of_pos hpass]
    cases rest with
    | nil => simp
    | cons c rest => simp_all
  have hdropped : (List.replicate more letter ++ rest).dropWhile (· == letter) = rest := by
    rw [List.dropWhile_append_of_pos hpass]
    cases rest with
    | nil => rfl
    | cons c rest => simp_all
  rw [scan]
  · cases hfield : Field.ofRun? letter (more + 1) <;>
      simp only [halpha, if_true, htaken, hdropped, List.length_replicate, hfield]
  · rintro _ rfl
    cases halpha
  · rintro rfl
    cases halpha

theorem scan_other {c : Char} (hquote : c ≠ '\'') (halpha : c.isAlpha = false)
    (rest : List Char) : scan (c :: rest) = do return .char c :: (← scan rest) := by
  rw [scan]
  · simp [halpha]
  · exact fun _ h => absurd h hquote
  · exact hquote

/-- **Scanning finds the tokens of the pieces**, one after the other. -/
theorem Divided.scan_eq_ok {cs : List Char} {pieces : List Piece} (h : Divided cs pieces)
    (hsound : ∀ piece ∈ pieces, piece.Sound) : scan cs = .ok (pieces.flatMap Piece.tokens) := by
  induction h with
  | nil => rw [scan, List.flatMap_nil]
  | quote _ ih =>
    rw [scan, ih fun piece hp => hsound piece (List.mem_cons_of_mem _ hp)]
    rfl
  | quoted hne hinside _ ih =>
    rw [scan_quoted hne hinside, ih fun piece hp => hsound piece (List.mem_cons_of_mem _ hp)]
    rfl
  | unclosed => exact (hsound _ List.mem_cons_self).elim
  | @run letter more rest pieces halpha hrest _ ih =>
    obtain ⟨f, hf⟩ := hsound _ List.mem_cons_self
    have htokens : (Piece.run letter (more + 1)).tokens = [.field f] := by
      rw [Piece.tokens, hf, Option.map_some, Option.toList_some]
    rw [scan_run halpha hrest, hf, ih fun piece hp => hsound piece (List.mem_cons_of_mem _ hp),
      List.flatMap_cons, htokens]
    rfl
  | other hquote halpha _ ih =>
    rw [scan_other hquote halpha, ih fun piece hp => hsound piece (List.mem_cons_of_mem _ hp)]
    rfl

/-- **Scanning stops at a piece that stands for no tokens.** -/
theorem Divided.scan_eq_error {cs : List Char} {pieces : List Piece} (h : Divided cs pieces)
    {piece : Piece} (hpiece : piece ∈ pieces) (hflaw : ¬piece.Sound) :
    ∃ problem, scan cs = .error problem := by
  induction h with
  | nil => cases hpiece
  | quote _ ih =>
    obtain rfl | hpiece := List.mem_cons.mp hpiece
    · exact absurd trivial hflaw
    · obtain ⟨problem, hrest⟩ := ih hpiece
      rw [scan, hrest]
      exact ⟨problem, rfl⟩
  | quoted hne hinside _ ih =>
    obtain rfl | hpiece := List.mem_cons.mp hpiece
    · exact absurd trivial hflaw
    · obtain ⟨problem, hrest⟩ := ih hpiece
      rw [scan_quoted hne hinside, hrest]
      exact ⟨problem, rfl⟩
  | unclosed hinside => exact ⟨_, scan_unclosed hinside⟩
  | @run letter more rest pieces halpha hrest _ ih =>
    rw [scan_run halpha hrest]
    cases hf : Field.ofRun? letter (more + 1) with
    | none => exact ⟨_, rfl⟩
    | some f =>
      obtain rfl | hpiece := List.mem_cons.mp hpiece
      · exact absurd ⟨f, hf⟩ hflaw
      · obtain ⟨problem, hscan⟩ := ih hpiece
        rw [hscan]
        exact ⟨problem, rfl⟩
  | other hquote halpha _ ih =>
    rw [scan_other hquote halpha]
    obtain rfl | hpiece := List.mem_cons.mp hpiece
    · exact absurd trivial hflaw
    · obtain ⟨problem, hrest⟩ := ih hpiece
      rw [hrest]
      exact ⟨problem, rfl⟩

/-! ## Fields of runs -/

theorem supported_iff (letter : Char) (length : Nat) :
    Supported letter length ↔ ∃ f, Field.ofRun? letter length = some f := by
  unfold Supported Field.ofRun?
  split <;> simp_all

theorem ofRun?_eq_hourOfHalf {letter : Char} {length : Nat} :
    Field.ofRun? letter length = some .hourOfHalf ↔ letter = 'h' := by
  unfold Field.ofRun?
  split <;> grind

theorem ofRun?_eq_half {letter : Char} {length : Nat} :
    Field.ofRun? letter length = some .half ↔ letter = 'a' := by
  unfold Field.ofRun?
  split <;> grind

/-- A field of pieces is that of a run among them. -/
theorem mem_fields_pieces {f : Field} {pieces : List Piece} :
    f ∈ fields (pieces.flatMap Piece.tokens) ↔
      ∃ letter length, .run letter length ∈ pieces ∧ Field.ofRun? letter length = some f := by
  rw [mem_fields, List.mem_flatMap]
  constructor
  · rintro ⟨piece, hpiece, hf⟩
    cases piece with
    | run letter length => exact ⟨letter, length, hpiece, by simpa [Piece.tokens] using hf⟩
    | _ => simp [Piece.tokens] at hf
  · rintro ⟨letter, length, hpiece, hf⟩
    exact ⟨_, hpiece, by simp [Piece.tokens, hf]⟩

/-- The field of a run is written as what the run says. -/
theorem write_ofRun {letter : Char} {length : Nat} {f : Field}
    (h : Field.ofRun? letter length = some f) (t : DateTime) :
    f.write t = runText t letter length := by
  unfold Field.ofRun? at h
  split at h
  case h_1 | h_10 =>
    cases h
    simp only [runText]
    split <;> rfl
  case h_2 =>
    cases h
    simp only [runText]
    split
    · rfl
    · split <;> rfl
  case h_8 =>
    split at h
    · cases h
      rfl
    · cases h
  case h_11 => cases h
  all_goals
    cases h
    rfl

/-- The tokens of a piece write what the piece says. -/
theorem Piece.write_tokens {piece : Piece} (h : piece.Sound) (t : DateTime) :
    piece.tokens.flatMap (Token.write t) = piece.write t := by
  cases piece with
  | quoted inside =>
    simp only [tokens, write]
    clear h
    induction inside with
    | nil => rfl
    | cons c inside ih => simp [Token.write, ih]
  | run letter length =>
    obtain ⟨f, hf⟩ := h
    simp [tokens, write, hf, Token.write, write_ofRun hf]
  | unclosed => cases h
  | quote | other => rfl

theorem write_pieces {pieces : List Piece} (h : ∀ piece ∈ pieces, piece.Sound) (t : DateTime) :
    (pieces.flatMap Piece.tokens).flatMap (Token.write t) = pieces.flatMap (Piece.write t) := by
  induction pieces with
  | nil => rfl
  | cons piece rest ih =>
    rw [List.flatMap_cons, List.flatMap_append, List.flatMap_cons,
      Piece.write_tokens (h piece List.mem_cons_self),
      ih fun piece hpiece => h piece (List.mem_cons_of_mem _ hpiece)]

/-! ## Patterns -/

/-- A piece that stands for no tokens is a flaw. -/
theorem flawed_of_not_sound {piece : Piece} {pieces : List Piece} (h : piece ∈ pieces)
    (hflaw : ¬piece.Sound) : Flawed pieces := by
  cases piece with
  | unclosed inside => exact .unclosed h
  | run letter length => exact .unsupported h ((not_congr (supported_iff letter length)).mpr hflaw)
  | quote | quoted | other => exact absurd trivial hflaw

/-- A flaw of sound pieces is an hour of the half day without its half. -/
theorem flawed_iff_of_sound {pieces : List Piece} (hsound : ∀ piece ∈ pieces, piece.Sound) :
    Flawed pieces ↔ (∃ length, .run 'h' length ∈ pieces) ∧ ∀ half, .run 'a' half ∉ pieces := by
  constructor
  · rintro (⟨h⟩ | ⟨h, hrun⟩ | ⟨h, hhalf⟩)
    · exact (hsound _ h).elim
    · exact absurd ((supported_iff _ _).mpr (hsound _ h)) hrun
    · exact ⟨⟨_, h⟩, hhalf⟩
  · rintro ⟨⟨length, h⟩, hhalf⟩
    exact .hourWithoutHalf h hhalf

theorem mentions_hourOfHalf {pieces : List Piece} :
    mentions .hourOfHalf (pieces.flatMap Piece.tokens) = true ↔
      ∃ length, .run 'h' length ∈ pieces := by
  simp only [mentions_iff, mem_fields_pieces, ofRun?_eq_hourOfHalf]
  grind

theorem mentions_half {pieces : List Piece} :
    mentions .half (pieces.flatMap Piece.tokens) = true ↔ ∃ length, .run 'a' length ∈ pieces := by
  simp only [mentions_iff, mem_fields_pieces, ofRun?_eq_half]
  grind

/-- **The pieces of a text say whether it is a pattern, and with which tokens.** -/
theorem Divided.check_eq {cs : List Char} {pieces : List Piece} (h : Divided cs pieces) :
    (Flawed pieces ∧ ∃ problem, check cs = .error problem) ∨
      (¬Flawed pieces ∧ check cs = .ok (pieces.flatMap Piece.tokens)) := by
  unfold check
  by_cases hsound : ∀ piece ∈ pieces, piece.Sound
  · rw [h.scan_eq_ok hsound, ok_bind, flawed_iff_of_sound hsound, ← mentions_hourOfHalf,
      ← not_exists, ← mentions_half]
    cases mentions .hourOfHalf (pieces.flatMap Piece.tokens) <;>
      cases mentions .half (pieces.flatMap Piece.tokens) <;> simp
  · obtain ⟨piece, hpiece⟩ := Classical.not_forall.mp hsound
    obtain ⟨hpiece, hflaw⟩ := Classical.not_imp.mp hpiece
    obtain ⟨problem, hscan⟩ := h.scan_eq_error hpiece hflaw
    rw [hscan]
    exact .inl ⟨flawed_of_not_sound hpiece hflaw, problem, rfl⟩

/-- **A date pattern means what it spells.** A text divides in one way. It is no pattern exactly if
a section does not end, a run of letters stands for no field, or an hour of the half day stands
without its half. And a pattern is filled in piece by piece: quoted text and other characters as
they are, a percent sign included, and what each run of letters says. -/
theorem compiles_and_writes_by_pieces (source : String) :
    ∃ pieces, Divided source.toList pieces ∧
      (∀ others, Divided source.toList others → others = pieces) ∧
      ((∃ fault, compile source = .error fault) ↔ Flawed pieces) ∧
      ∀ p, compile source = .ok p → ∀ (millis : Int64) (t : DateTime),
        DateTime.ofMillis? millis.toInt = some t →
          p.writeMillis millis = .ok (String.ofList (pieces.flatMap (Piece.write t))) := by
  obtain ⟨pieces, h⟩ := Divided.exists source.toList
  refine ⟨pieces, h, fun others h' => h'.unique h, ?_, ?_⟩
  · rw [compile_eq]
    rcases h.check_eq with ⟨hflawed, problem, hcheck⟩ | ⟨hsound, hcheck⟩
    · rw [hcheck]
      exact iff_of_true ⟨_, rfl⟩ hflawed
    · rw [hcheck]
      exact iff_of_false nofun hsound
  · intro p hp millis t ht
    rw [compile_eq] at hp
    rcases h.check_eq with ⟨-, problem, hcheck⟩ | ⟨hflawed, hcheck⟩
    · rw [hcheck] at hp
      cases hp
    · rw [hcheck] at hp
      cases hp
      have hsound : ∀ piece ∈ pieces, piece.Sound := fun piece hpiece =>
        Classical.byContradiction fun hflaw => hflawed (flawed_of_not_sound hpiece hflaw)
      refine writeMillis_eq_ok.mpr ⟨t, ht, ?_⟩
      rw [write, write_pieces hsound]

/-- Percent signs in and out of quotes are written as they are, and a quoted letter is no half of
the day. -/
theorem compiles_and_writes_by_pieces_percent :
    (∃ p, compile "'%Y' %d''yy%é" = .ok p ∧ p.writeMillis 1665263297123 = .ok "%Y %08'22%é") ∧
      ∃ fault, compile "hh 'a'" = .error fault := by
  constructor
  · have hp : compile "'%Y' %d''yy%é" = .ok ⟨"'%Y' %d''yy%é", [.char '%', .char 'Y', .char ' ',
        .char '%', .field .day, .char '\'', .field .yearOfCentury, .char '%', .char 'é']⟩ := by
      cbv
    have hclock : DateTime.ofMillis? (1665263297123 : Int64).toInt =
        some ⟨⟨2022, 10, 8⟩, 21, 8, 17, 123000000⟩ := by decide +kernel
    have htext : "'%Y' %d''yy%é".toList =
        ['\'', '%', 'Y', '\'', ' ', '%', 'd', '\'', '\'', 'y', 'y', '%', 'é'] := by decide
    have hdivided : Divided "'%Y' %d''yy%é".toList [.quoted ['%', 'Y'], .other ' ', .other '%',
        .run 'd' 1, .quote, .run 'y' 2, .other '%', .other 'é'] := by
      rw [htext]
      refine @Divided.quoted ['%', 'Y'] _ _ (by decide) (by decide) ?_
      refine .other (by decide) rfl (.other (by decide) rfl ?_)
      refine @Divided.run 'd' 0 _ _ rfl (by decide) (.quote ?_)
      refine @Divided.run 'y' 1 _ _ rfl (by decide) ?_
      exact .other (by decide) rfl (.other (by decide) rfl .nil)
    obtain ⟨pieces, -, hunique, -, hwrite⟩ := compiles_and_writes_by_pieces "'%Y' %d''yy%é"
    refine ⟨_, hp, ?_⟩
    rw [hwrite _ hp _ _ hclock, ← hunique _ hdivided]
    exact congrArg Except.ok (by decide)
  · have htext : "hh 'a'".toList = ['h', 'h', ' ', '\'', 'a', '\''] := by decide
    have hdivided : Divided "hh 'a'".toList [.run 'h' 2, .other ' ', .quoted ['a']] := by
      rw [htext]
      refine @Divided.run 'h' 1 _ _ rfl (by decide) (.other (by decide) rfl ?_)
      exact @Divided.quoted ['a'] _ _ (by decide) (by decide) .nil
    obtain ⟨pieces, -, hunique, hfails, -⟩ := compiles_and_writes_by_pieces "hh 'a'"
    rw [hfails, ← hunique _ hdivided]
    exact .hourWithoutHalf List.mem_cons_self (by simp)

end Lakehouse.DatePattern
