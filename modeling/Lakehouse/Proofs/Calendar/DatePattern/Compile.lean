import Lakehouse.Proofs.Calendar.DatePattern.RoundTrip
import Lakehouse.Proofs.Except

/-!
# The tokens of a pattern

The literal characters of a pattern come from its text, and all its slashes are among them.

* `DatePattern.Spelled`: how a text spells tokens, and `DatePattern.spelled_of_scan`: scanning finds
  tokens that the text spells.
* `DatePattern.Spelled.count_slash`: no slash is lost or doubled.
* `DatePattern.readDirectives_directives`: tokens are read back from their directives, so a literal
  character never acts as a field; `DatePattern.compile_eq`: compiling keeps the scanned tokens.
* `DatePattern.count_write`: a written date has the characters of its pattern that no field has.
-/

namespace Lakehouse.DatePattern

/-! ## Texts and tokens -/

/-- A text spells tokens: pairs of quotes, sections between quotes, runs of letters, and characters
that stand for themselves. -/
inductive Spelled : List Char → List Token → Prop where
  | nil : Spelled [] []
  | quote {rest : List Char} {tokens : List Token} :
      Spelled rest tokens → Spelled ('\'' :: '\'' :: rest) (.char '\'' :: tokens)
  | quoted {inside after : List Char} {tokens : List Token} :
      Spelled after tokens →
        Spelled ('\'' :: (inside ++ '\'' :: after)) (inside.map .char ++ tokens)
  | run {c : Char} {more : Nat} {field : Field} {rest : List Char} {tokens : List Token} :
      c.isAlpha = true → Field.ofRun? c (more + 1) = some field → Spelled rest tokens →
        Spelled (c :: (List.replicate more c ++ rest)) (.field field :: tokens)
  | other {c : Char} {rest : List Char} {tokens : List Token} :
      Spelled rest tokens → Spelled (c :: rest) (.char c :: tokens)

/-- A section between quotes is the text up to the next quote. -/
theorem eq_takeWhile_append {rest after : List Char} {c : Char}
    (h : rest.dropWhile (· != '\'') = c :: after) :
    rest = rest.takeWhile (· != '\'') ++ '\'' :: after := by
  have hc : c = '\'' := by
    have hhead := List.head?_dropWhile_not (· != '\'') rest
    rw [h] at hhead
    simpa using hhead
  have hsplit := List.takeWhile_append_dropWhile (p := (· != '\'')) (l := rest)
  rw [h, hc] at hsplit
  exact hsplit.symm

/-- The letters of a run are all the same. -/
theorem eq_replicate_append (c : Char) (rest : List Char) :
    rest = List.replicate (rest.takeWhile (· == c)).length c ++ rest.dropWhile (· == c) := by
  have hrun : rest.takeWhile (· == c) =
      List.replicate (rest.takeWhile (· == c)).length c := by
    refine List.eq_replicate_iff.mpr ⟨rfl, fun d hd => ?_⟩
    have hsame := List.all_takeWhile (p := (· == c)) (l := rest)
    simpa using List.all_eq_true.mp hsame d hd
  rw [← hrun, List.takeWhile_append_dropWhile]

/-- **Scanning finds tokens that the text spells.** -/
theorem spelled_of_scan {cs : List Char} {tokens : List Token} (h : scan cs = .ok tokens) :
    Spelled cs tokens := by
  fun_induction scan generalizing tokens with
  | case1 =>
    cases h
    exact .nil
  | case2 rest ih =>
    obtain ⟨ts, hts, htokens⟩ := bind_eq_ok.mp h
    cases htokens
    exact .quote (ih hts)
  | case3 => cases h
  | case4 rest hquote c after hdrop ih =>
    obtain ⟨ts, hts, htokens⟩ := bind_eq_ok.mp h
    cases htokens
    have hspelled : Spelled ('\'' :: (rest.takeWhile (· != '\'') ++ '\'' :: after)) _ :=
      .quoted (ih hts)
    rwa [← eq_takeWhile_append hdrop] at hspelled
  | case5 => cases h
  | case6 =>
    rename_i c rest _ _ halpha length field hfield ih
    obtain ⟨ts, hts, htokens⟩ := bind_eq_ok.mp h
    cases htokens
    have hspelled : Spelled (c :: (List.replicate _ c ++ rest.dropWhile (· == c))) _ :=
      .run halpha hfield (ih hts)
    rwa [← eq_replicate_append] at hspelled
  | case7 c rest hquotes hquote halpha ih =>
    obtain ⟨ts, hts, htokens⟩ := bind_eq_ok.mp h
    cases htokens
    exact .other (ih hts)

/-! ## What the tokens keep -/

/-- **No slash is lost or doubled.** -/
theorem Spelled.count_slash {cs : List Char} {tokens : List Token} (h : Spelled cs tokens) :
    tokens.count (.char '/') = cs.count '/' := by
  induction h with
  | nil => rfl
  | quote _ ih => simp [ih]
  | @quoted inside after tokens _ ih =>
    have hinside : (inside.map Token.char).count (.char '/') = inside.count '/' := by
      rw [List.count_eq_countP, List.count_eq_countP, List.countP_map]
      exact List.countP_congr fun c _ => by simp
    simp [ih, hinside]
  | @run c more field rest tokens halpha _ _ ih =>
    have hc : c ≠ '/' := fun h => absurd (h ▸ halpha) (by decide)
    simp [ih, List.count_replicate, hc]
  | @other c rest tokens _ ih =>
    simp [ih, List.count_cons]

/-- A literal character stands in the text. -/
theorem Spelled.mem {cs : List Char} {tokens : List Token} (h : Spelled cs tokens) {c : Char}
    (hc : .char c ∈ tokens) : c ∈ cs := by
  induction h with
  | nil => exact absurd hc List.not_mem_nil
  | quote _ ih => simp_all; grind
  | quoted _ ih => simp_all; grind
  | run _ _ _ ih => simp_all
  | other _ ih => simp_all; grind

/-- Fractions have three, six or nine digits. -/
theorem Spelled.fraction {cs : List Char} {tokens : List Token} (h : Spelled cs tokens)
    {digits : Nat} (hf : .fraction digits ∈ fields tokens) :
    digits = 3 ∨ digits = 6 ∨ digits = 9 := by
  rw [mem_fields] at hf
  induction h with
  | nil => exact absurd hf List.not_mem_nil
  | quote _ ih => exact ih (by simpa using hf)
  | quoted _ ih => exact ih (by simpa using hf)
  | @run c more field rest tokens _ hfield _ ih =>
    rcases List.mem_cons.mp hf with hhead | htail
    · cases hhead
      unfold Field.ofRun? at hfield
      split at hfield <;> grind
    · exact ih htail
  | other _ ih => exact ih (by simpa using hf)

/-- A field stands for letters of the text. -/
theorem Spelled.exists_letter {cs : List Char} {tokens : List Token} (h : Spelled cs tokens)
    {f : Field} (hf : .field f ∈ tokens) : ∃ c ∈ cs, c.isAlpha = true := by
  induction h with
  | nil => exact absurd hf List.not_mem_nil
  | quote _ ih =>
    obtain ⟨c, hc, halpha⟩ := ih (by simpa using hf)
    exact ⟨c, List.mem_cons_of_mem _ (List.mem_cons_of_mem _ hc), halpha⟩
  | quoted _ ih =>
    obtain ⟨c, hc, halpha⟩ := ih (by simpa using hf)
    exact ⟨c, by simp [hc], halpha⟩
  | run halpha _ _ _ => exact ⟨_, List.mem_cons_self, halpha⟩
  | other _ ih =>
    obtain ⟨c, hc, halpha⟩ := ih (by simpa using hf)
    exact ⟨c, List.mem_cons_of_mem _ hc, halpha⟩

/-! ## Directives -/

/-- A character that stands for itself is read as itself, also a percent sign. -/
theorem readDirectives_char (c : Char) (rest : List Char) :
    readDirectives ((Token.char c).directive ++ rest) =
      (readDirectives rest).map (.char c :: ·) := by
  by_cases hpercent : c = '%'
  · subst hpercent
    rfl
  · rw [Token.directive, if_neg hpercent, List.singleton_append, readDirectives]
    all_goals simp [hpercent]

/-- A field is read as itself, whatever stands behind it. -/
theorem readDirectives_field {f : Field}
    (hf : ∀ digits, f = .fraction digits → digits = 3 ∨ digits = 6 ∨ digits = 9)
    (rest : List Char) :
    readDirectives ((Token.field f).directive ++ rest) =
      (readDirectives rest).map (.field f :: ·) := by
  cases f with
  | fraction digits => rcases hf digits rfl with rfl | rfl | rfl <;> rfl
  | _ => rfl

/-- **Tokens are read back from their directives**: no literal character becomes part of a field,
whatever stands around it. -/
theorem readDirectives_directives {tokens : List Token}
    (hfraction : ∀ digits, .fraction digits ∈ fields tokens →
      digits = 3 ∨ digits = 6 ∨ digits = 9) :
    readDirectives (directives tokens) = some tokens := by
  unfold directives
  induction tokens with
  | nil => rfl
  | cons token rest ih =>
    cases token with
    | char c =>
      rw [List.flatMap_cons, readDirectives_char, ih hfraction]
      rfl
    | field f =>
      have hf : ∀ digits, f = .fraction digits → digits = 3 ∨ digits = 6 ∨ digits = 9 :=
        fun digits h => hfraction digits (h ▸ List.mem_cons_self)
      rw [List.flatMap_cons, readDirectives_field hf,
        ih fun digits h => hfraction digits (List.mem_cons_of_mem f h)]
      rfl

/-! ## Compiling -/

/-- **Compiling keeps the tokens that were checked**: their directives stand for the same tokens. -/
theorem compile_eq (source : String) :
    compile source =
      match check source.toList with
      | .ok tokens => .ok ⟨source, tokens⟩
      | .error problem => .error ⟨.parseException, problem.message source⟩ := by
  unfold compile
  cases hcheck : check source.toList with
  | error problem => rfl
  | ok tokens =>
    obtain ⟨scanned, hscan, hhalf⟩ := bind_eq_ok.mp hcheck
    have htokens : scanned = tokens := by
      split at hhalf
      · cases hhalf
      · exact Except.ok.inj hhalf
    have hspelled := spelled_of_scan (htokens ▸ hscan)
    simp only [readDirectives_directives fun _ => hspelled.fraction]

/-- A pattern that compiles is spelled by its text, and has the half of the day beside its hour. -/
theorem compile_eq_ok {source : String} {p : DatePattern} (h : compile source = .ok p) :
    Spelled source.toList p.tokens ∧
      (.hourOfHalf ∈ fields p.tokens → .half ∈ fields p.tokens) := by
  rw [compile_eq] at h
  split at h
  · rename_i tokens hcheck
    cases h
    obtain ⟨scanned, hscan, hcheck⟩ := bind_eq_ok.mp hcheck
    split at hcheck
    · cases hcheck
    · rename_i hhalf
      cases hcheck
      refine ⟨spelled_of_scan hscan, fun hhour => ?_⟩
      rw [← mentions_iff] at hhour ⊢
      simpa [hhour] using hhalf
  · cases h

/-! ## Written dates -/

/-- **A written date has the characters of its pattern**, each as often, but for those that fields
are written with. -/
theorem count_write {d : Char} (hd : isPlain d = false) (t : DateTime) (tokens : List Token) :
    (tokens.flatMap (Token.write t)).count d = tokens.count (.char d) := by
  induction tokens with
  | nil => rfl
  | cons token rest ih =>
    rw [List.flatMap_cons, List.count_append, ih]
    cases token with
    | char c => simp [Token.write, List.count_cons, Nat.add_comm]
    | field f =>
      have hnone : (f.write t).count d = 0 := List.count_eq_zero.mpr fun hmem => by
        have hplain := Field.isPlain_of_mem_write hmem
        rw [hd] at hplain
        cases hplain
      simp [Token.write, hnone]

/-- A character of a written date is a literal of its pattern or belongs to a field. -/
theorem mem_write {t : DateTime} {tokens : List Token} {c : Char}
    (h : c ∈ tokens.flatMap (Token.write t)) : .char c ∈ tokens ∨ isPlain c = true := by
  obtain ⟨token, htoken, hc⟩ := List.mem_flatMap.mp h
  cases token with
  | char d =>
    rw [Token.write, List.mem_singleton] at hc
    exact .inl (hc ▸ htoken)
  | field f => exact .inr (Field.isPlain_of_mem_write hc)

end Lakehouse.DatePattern
