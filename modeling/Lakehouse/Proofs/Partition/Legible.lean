import Lakehouse.Proofs.Calendar.DatePattern.Literal
import Lakehouse.Proofs.Native.Decimal
import Lakehouse.Proofs.Partition.Bucket
import Lakehouse.Proofs.Partition.Identity

/-!
# What partition values are read from

Several texts are read as one value: numbers may carry zeros and signs, dates and numbers stand
between blanks. But a path is divided at slashes and equals signs, and these a typed value is never
read from; a string is read from itself only, and a bucket from a text with the slashes and equals
signs of its pattern. So whatever is read as what is kept of a value has as many of them as the text
that was written for it.

* `TableFormat.isLegible_of_readIdentity`: the characters that a typed value is read from.
* `TableFormat.canonical_of_readIdentity`: what is read is canonical.
* `TableFormat.count_eq_of_fromNative`: what was written and what is read as it are divided alike.
-/

namespace Lakehouse

/-- A character of a text that is read as a typed value. -/
def isLegible (c : Char) : Bool := isTextual c || c == '_' || Text.isBlank c

theorem isLegible_of_isTextual {c : Char} (h : isTextual c = true) : isLegible c = true := by
  simp [isLegible, h]

theorem isTextual_of_isDigit {c : Char} (h : c.isDigit = true) : isTextual c = true :=
  isTextual_of_isPlain (DatePattern.isPlain_of_isDigit h)

theorem isTextual_of_isAlpha {c : Char} (h : c.isAlpha = true) : isTextual c = true := by
  simp [isTextual, DatePattern.isPlain, Char.isAlphanum, h]

theorem foreign_of_not_isLegible {c : Char} (h : isLegible c = false) :
    DatePattern.Foreign c := by
  simp only [isLegible, isTextual, Bool.or_eq_false_iff] at h
  exact ⟨h.1.1.1, h.2⟩

/-- A text is read from the characters between its blanks. -/
theorem isLegible_of_trim {s : String} (h : ∀ c ∈ (Text.trim s).toList, isLegible c = true) :
    ∀ c ∈ s.toList, isLegible c = true := by
  intro c hc
  by_cases hblank : Text.isBlank c = true
  · simp [isLegible, hblank]
  · have hcount := Text.count_trim (by simpa using hblank) s
    refine h c (List.count_pos_iff.mp ?_)
    rw [hcount]
    exact List.count_pos_iff.mpr hc

/-! ## Numbers -/

theorem Numeral.mem_of_readChars {below above : Nat} {cs : List Char} {n : Int}
    (h : readChars below above cs = .ok n) : ∀ c ∈ cs, isTextual c = true := by
  have hdigits : ∀ {limit overflow} {ds : List Char} {f : Int → Int},
      (do return ((← accumulate limit overflow 0 ds : Nat) : Int) : Except Problem Int).map f =
        .ok n → ∀ c ∈ ds, isTextual c = true := by
    intro limit overflow ds f hmap c hc
    obtain ⟨k, hk, -⟩ := map_eq_ok.mp hmap
    obtain ⟨m, hm, -⟩ := bind_eq_ok.mp hk
    exact isTextual_of_isDigit ((accumulate_eq_ok hm).2 c hc)
  unfold readChars at h
  split at h
  · cases h
  · cases h
  · cases h
  · exact List.forall_mem_cons.mpr ⟨rfl, hdigits h⟩
  · exact List.forall_mem_cons.mpr ⟨rfl, hdigits h⟩
  · exact hdigits h

/-- An integer is read from digits behind a sign. -/
theorem Native.isLegible_of_readInt {s : String} {n : Int32} (h : readInt (.string s) = .ok n) :
    ∀ c ∈ s.toList, isLegible c = true := by
  simp only [readInt] at h
  split at h
  · rename_i m hread
    obtain ⟨k, hk, -⟩ := map_eq_ok.mp hread
    exact isLegible_of_trim fun c hc => isLegible_of_isTextual (Numeral.mem_of_readChars hk c hc)
  · cases h

theorem Native.isLegible_of_readLong {s : String} {n : Int64} (h : readLong (.string s) = .ok n) :
    ∀ c ∈ s.toList, isLegible c = true := by
  simp only [readLong] at h
  split at h
  · rename_i m hread
    obtain ⟨k, hk, -⟩ := map_eq_ok.mp hread
    exact isLegible_of_trim fun c hc => isLegible_of_isTextual (Numeral.mem_of_readChars hk c hc)
  · cases h

/-- A truth value is read from letters. -/
theorem Native.isLegible_of_readBoolean {s : String} {b : Bool}
    (h : readBoolean (.string s) = .ok b) : ∀ c ∈ s.toList, isLegible c = true := by
  have hword : ∀ word : String, (∀ c ∈ word.toList, isTextual c = true) →
      Text.sameLetters (Text.trim s) word = true → ∀ c ∈ s.toList, isLegible c = true := by
    intro word hletters hsame
    refine isLegible_of_trim fun c hc => isLegible_of_isTextual ?_
    by_cases halpha : c.isAlpha = true
    · exact isTextual_of_isAlpha halpha
    · refine hletters c (Text.mem_of_sameChars (by simpa using halpha) ?_ hc)
      have hupper := congrArg String.toList (Text.sameLetters_iff.mp hsame)
      simp only [Text.upper, String.toList_map] at hupper
      exact beq_iff_eq.mpr hupper.symm
  simp only [readBoolean] at h
  split at h
  · rename_i hsame
    exact hword "true" (List.all_eq_true.mp (by decide)) hsame
  · split at h
    · rename_i hsame
      exact hword "false" (List.all_eq_true.mp (by decide)) hsame
    · cases h

/-! ## Floating-point numbers -/

namespace Scientific

theorem isTextual_of_readExponent {cs : List Char} {e : Int} (h : readExponent cs = some e) :
    ∀ c ∈ cs, isTextual c = true := by
  unfold readExponent at h
  split at h
  · simp
  · rename_i mark rest
    split at h
    · rename_i hmark
      have hmark : isTextual mark = true := by
        rcases hmark with rfl | rfl <;> rfl
      refine List.forall_mem_cons.mpr ⟨hmark, ?_⟩
      split at h
      rename_i negative ds hsign
      have hdigits : ∀ c ∈ ds, isTextual c = true := fun c hc =>
        isTextual_of_isDigit
          (List.all_eq_true.mp (Option.ite_none_right_eq_some.mp h).1.2 c hc)
      split at hsign
      · cases hsign
        exact List.forall_mem_cons.mpr ⟨rfl, hdigits⟩
      · cases hsign
        exact List.forall_mem_cons.mpr ⟨rfl, hdigits⟩
      · cases hsign
        exact hdigits
    · cases h

theorem isTextual_of_readDecimal {cs : List Char} {s : Scientific} (h : readDecimal cs = some s) :
    ∀ c ∈ cs, isTextual c = true := by
  have hrun : ∀ ds : List Char, (∀ c ∈ ds.dropWhile Char.isDigit, isTextual c = true) →
      ∀ c ∈ ds, isTextual c = true := by
    intro ds hrest c hc
    rw [← List.takeWhile_append_dropWhile (p := Char.isDigit) (l := ds)] at hc
    rcases List.mem_append.mp hc with hdigit | hc
    · exact isTextual_of_isDigit (List.all_eq_true.mp List.all_takeWhile c hdigit)
    · exact hrest c hc
  refine hrun cs ?_
  unfold readDecimal at h
  simp only at h
  split at h
  · rename_i rest hpoint
    obtain ⟨e, he, -⟩ := Option.map_eq_some_iff.mp (Option.ite_none_left_eq_some.mp h).2
    rw [hpoint]
    exact List.forall_mem_cons.mpr ⟨rfl, hrun rest (isTextual_of_readExponent he)⟩
  · obtain ⟨e, he, -⟩ := Option.map_eq_some_iff.mp (Option.ite_none_left_eq_some.mp h).2
    exact isTextual_of_readExponent he

theorem isTextual_of_readUnsigned {w : Width} {negative : Bool} {cs : List Char} {x : Binary w}
    (h : readUnsigned w negative cs = some x) : ∀ c ∈ cs, isTextual c = true := by
  have hname : ∀ name : List Char, (∀ c ∈ name, c.isAlpha = true) → cs.map Char.toLower = name →
      ∀ c ∈ cs, isTextual c = true := by
    rintro name hletters rfl c hc
    have halpha := hletters _ (List.mem_map_of_mem hc)
    by_cases hupper : c.isUpper = true
    · exact isTextual_of_isAlpha (by simp [Char.isAlpha, hupper])
    · rw [Char.toLower_eq_of_not_isUpper hupper] at halpha
      exact isTextual_of_isAlpha halpha
  unfold readUnsigned at h
  split at h
  · rename_i s hdecimal
    exact isTextual_of_readDecimal hdecimal
  · simp only at h
    split at h
    · rename_i hinfinite
      rcases hinfinite with hinf | hinfinity
      · exact hname _ (List.all_eq_true.mp (by decide)) hinf
      · exact hname _ (List.all_eq_true.mp (by decide)) hinfinity
    · split at h
      · rename_i hnan
        exact hname _ (List.all_eq_true.mp (by decide)) hnan
      · cases h

theorem isTextual_of_read {w : Width} {text : String} {x : Binary w} (h : read w text = .ok x) :
    ∀ c ∈ text.toList, isTextual c = true := by
  have hunsigned : ∀ {negative : Bool} {cs : List Char},
      (readUnsigned w negative cs).elim (.error Problem.invalid) Except.ok = .ok x →
      ∀ c ∈ cs, isTextual c = true := by
    intro negative cs h
    cases hread : readUnsigned w negative cs with
    | none =>
      rw [hread] at h
      cases h
    | some y => exact isTextual_of_readUnsigned hread
  unfold read at h
  split at h
  · cases h
  · rename_i hcs
    rw [hcs]
    exact List.forall_mem_cons.mpr ⟨rfl, hunsigned h⟩
  · rename_i hcs
    rw [hcs]
    exact List.forall_mem_cons.mpr ⟨rfl, hunsigned h⟩
  · exact hunsigned h

end Scientific

/-- A floating-point number is read from letters, digits, signs and points. -/
theorem Native.isLegible_of_readFloatText {s : String} {x : Binary64}
    (h : readFloatText s = .ok x) : ∀ c ∈ s.toList, isLegible c = true := by
  refine isLegible_of_trim fun c hc => isLegible_of_isTextual ?_
  revert c
  unfold readFloatText at h
  split at h
  · rename_i htrim
    rw [htrim]
    exact List.all_eq_true.mp (by decide)
  · rename_i htrim
    rw [htrim]
    exact List.all_eq_true.mp (by decide)
  · rename_i htrim
    rw [htrim]
    exact List.all_eq_true.mp (by decide)
  · rename_i htrim
    rw [htrim]
    exact List.all_eq_true.mp (by decide)
  · split at h
    · rename_i hread
      exact Scientific.isTextual_of_read hread
    · cases h

/-! ## Decimals -/

namespace Decimal

theorem isLegible_of_isPart {c : Char} (h : Scan.isPart c = true) : isLegible c = true := by
  simp only [Scan.isPart, Bool.or_eq_true, beq_iff_eq] at h
  rcases h with (hdigit | rfl) | rfl
  · exact isLegible_of_isTextual (isTextual_of_isDigit hdigit)
  · rfl
  · rfl

theorem isLegible_of_readPlain {cs : List Char} {d : Decimal} (h : readPlain cs = .ok d) :
    ∀ c ∈ cs, isLegible c = true := by
  unfold readPlain at h
  split at h
  · cases h
  · obtain ⟨s, hscan, -⟩ := bind_eq_ok.mp h
    exact List.forall_mem_cons.mpr
      ⟨rfl, fun c hc => isLegible_of_isPart (Scan.digits_isPart hscan c hc)⟩
  · obtain ⟨s, hscan, -⟩ := bind_eq_ok.mp h
    exact List.forall_mem_cons.mpr
      ⟨rfl, fun c hc => isLegible_of_isPart (Scan.digits_isPart hscan c hc)⟩
  · obtain ⟨s, hscan, -⟩ := bind_eq_ok.mp h
    exact fun c hc => isLegible_of_isPart (Scan.digits_isPart hscan c hc)

theorem isLegible_of_readExponent {cs : List Char} {n : Nat} (h : readExponent cs = .ok n) :
    ∀ c ∈ cs, isLegible c = true := by
  have hdigits : ∀ {limit overflow m} {ds : List Char},
      Numeral.accumulate limit overflow 0 ds = .ok m → ∀ c ∈ ds, isLegible c = true :=
    fun hm c hc =>
      isLegible_of_isTextual (isTextual_of_isDigit ((Numeral.accumulate_eq_ok hm).2 c hc))
  unfold readExponent at h
  split at h
  · rename_i m hread
    unfold Numeral.readNatural at hread
    split at hread
    · cases hread
    · cases hread
    · exact List.forall_mem_cons.mpr ⟨rfl, hdigits hread⟩
    · exact hdigits hread
  · cases h

theorem isLegible_of_readScientific {cs : List Char} {d : Decimal}
    (h : readScientific cs = .ok d) : ∀ c ∈ cs, isLegible c = true := by
  unfold readScientific at h
  split at h
  · cases h
  · rename_i mark exponent hrest
    obtain ⟨base, hbase, h⟩ := bind_eq_ok.mp h
    have hmark : isLegible mark = true := by
      have hhead := List.head?_dropWhile_not (!isExponentMark ·) cs
      rw [hrest] at hhead
      have hletter : isExponentMark mark = true := by simpa using hhead
      have hletter : mark = 'e' ∨ mark = 'E' := by
        simpa only [isExponentMark, Bool.or_eq_true, beq_iff_eq] using hletter
      rcases hletter with rfl | rfl <;> rfl
    have hexponent : ∀ c ∈ exponent, isLegible c = true := by
      split at h
      · obtain ⟨n, hn, -⟩ := bind_eq_ok.mp h
        exact List.forall_mem_cons.mpr ⟨rfl, isLegible_of_readExponent hn⟩
      · obtain ⟨n, hn, -⟩ := bind_eq_ok.mp h
        exact isLegible_of_readExponent hn
    intro c hc
    rw [← List.takeWhile_append_dropWhile (p := (!isExponentMark ·)) (l := cs), hrest] at hc
    rcases List.mem_append.mp hc with hc | hc
    · exact isLegible_of_readPlain hbase c hc
    · exact List.forall_mem_cons (p := (isLegible · = true)) |>.mpr ⟨hmark, hexponent⟩ c hc

end Decimal

/-- A decimal is read from digits, signs, points, underscores and an exponent mark. -/
theorem Native.isLegible_of_readDecimalText {s : String} {d : Decimal}
    (h : readDecimalText s = .ok d) : ∀ c ∈ s.toList, isLegible c = true := by
  refine isLegible_of_trim ?_
  unfold readDecimalText at h
  split at h
  · rename_i e hread
    unfold Decimal.readChars at hread
    split at hread
    · rename_i e' hplain
      exact Decimal.isLegible_of_readPlain hplain
    · exact Decimal.isLegible_of_readScientific hread
  · cases h

/-! ## Values -/

/-- A floating-point number is written as a decimal or a word. -/
theorem isTextual_of_floating {w : Width} (x : Binary w) :
    ∀ c ∈ (if x.isFinite then x.text else Native.sentinel x).toList, isTextual c = true := by
  split
  · rename_i hfinite
    rw [Binary.toList_text hfinite]
    intro c hc
    rcases Decimal.mem_fixedChars hc with rfl | rfl | hdigit
    · rfl
    · rfl
    · exact isTextual_of_isDigit hdigit
  · unfold Native.sentinel
    split
    · exact List.all_eq_true.mp (by decide)
    · split <;> exact List.all_eq_true.mp (by decide)

/-- Bytes are written as hexadecimal digits. -/
theorem isTextual_of_hexadecimal (bs : List UInt8) :
    ∀ c ∈ (Value.bytes bs).text.toList, isTextual c = true := by
  have hdigit : ∀ n < 16, isTextual (Nat.digitChar n) = true := by decide
  intro c hc
  rw [Value.text, String.toList_ofList] at hc
  obtain ⟨b, -, hc⟩ := List.mem_flatMap.mp hc
  have hb := b.toNat_lt
  simp only [Value.hexByte, List.mem_cons, List.not_mem_nil, or_false] at hc
  rcases hc with rfl | rfl
  · exact hdigit _ (by omega)
  · exact hdigit _ (by omega)

namespace Identity

variable {type : DataType} {v : Value} {text : String}

theorem parse_eq_ok (h : parse text type = .ok v) : read text type = .ok v := by
  unfold parse at h
  split at h
  · exact mapError_eq_ok.mp h
  · cases h

theorem canonical_of_read (h : read text type = .ok v) :
    Canonical type v ∧ v.isNull = false := by
  cases type with
  | string | enumeration | uuid =>
    cases h
    constructor
    · constructor
    · rfl
  | int | long | boolean | decimal | float | double =>
    obtain ⟨x, -, h⟩ := bind_eq_ok.mp h
    cases h
    constructor
    · constructor
    · rfl
  | _ => cases h

/-- A string is read from any text, and is the text; anything else from legible characters. -/
theorem isLegible_of_read (h : read text type = .ok v) :
    v = .string text ∨ ∀ c ∈ text.toList, isLegible c = true := by
  cases type with
  | string | enumeration | uuid => exact .inl (Except.ok.inj h).symm
  | int =>
    obtain ⟨n, hn, -⟩ := bind_eq_ok.mp h
    exact .inr (Native.isLegible_of_readInt hn)
  | long =>
    obtain ⟨n, hn, -⟩ := bind_eq_ok.mp h
    exact .inr (Native.isLegible_of_readLong hn)
  | boolean =>
    obtain ⟨b, hb, -⟩ := bind_eq_ok.mp h
    exact .inr (Native.isLegible_of_readBoolean hb)
  | decimal =>
    obtain ⟨d, hd, -⟩ := bind_eq_ok.mp h
    exact .inr (Native.isLegible_of_readDecimalText hd)
  | float | double =>
    obtain ⟨x, hx, -⟩ := bind_eq_ok.mp h
    exact .inr (Native.isLegible_of_readFloatText hx)
  | _ => cases h

end Identity

namespace TableFormat

variable {format : TableFormat} {type : DataType} {v : Value} {text written pattern : String}

/-- What is read is a canonical value of the type, and it is present. -/
theorem canonical_of_readIdentity (h : format.readIdentity text type pattern = .ok v) :
    Canonical type v ∧ v.isNull = false := by
  unfold readIdentity at h
  split at h
  · obtain ⟨day, -, h⟩ := bind_eq_ok.mp h
    cases h
    exact ⟨.date day, rfl⟩
  · obtain ⟨instant, -, h⟩ := bind_eq_ok.mp h
    cases h
    exact ⟨.timestamp instant, rfl⟩
  · obtain ⟨instant, -, h⟩ := bind_eq_ok.mp h
    cases h
    exact ⟨.timestampNtz instant, rfl⟩
  · exact Identity.canonical_of_read (Identity.parse_eq_ok h)

theorem isLegible_of_readInstantText {instant : Int64}
    (h : hudi.readInstantText text "" = .ok instant) : ∀ c ∈ text.toList, isLegible c = true := by
  unfold readInstantText at h
  rw [instantPattern_empty, ok_bind] at h
  exact Native.isLegible_of_readLong (mapError_eq_ok.mp h)

/-- **A string is read from any text, and is the text; any other value is read from legible
characters.** -/
theorem isLegible_of_readIdentity (h : hudi.readIdentity text type "" = .ok v) :
    v = .string text ∨ ∀ c ∈ text.toList, isLegible c = true := by
  unfold readIdentity at h
  split at h
  · obtain ⟨day, hday, -⟩ := bind_eq_ok.mp h
    refine .inr fun c hc => Decidable.byContradiction fun hlegible => ?_
    have hcount := EpochDay.count_of_read
      (foreign_of_not_isLegible (by simpa using hlegible)) (mapError_eq_ok.mp hday)
    exact List.count_eq_zero.mp hcount hc
  · obtain ⟨instant, hread, -⟩ := bind_eq_ok.mp h
    exact .inr (isLegible_of_readInstantText hread)
  · obtain ⟨instant, hread, -⟩ := bind_eq_ok.mp h
    exact .inr (isLegible_of_readInstantText hread)
  · exact Identity.isLegible_of_read (Identity.parse_eq_ok h)

/-- What is written of anything but a string is letters, digits, signs and points. -/
theorem isTextual_of_writeIdentity (hv : Canonical type v) (hpresent : v.isNull = false)
    (hstring : ∀ s, v ≠ .string s) (h : hudi.writeIdentity v type "" = .ok text) :
    ∀ c ∈ text.toList, isTextual c = true := by
  by_cases htype : type.isTyped = true
  · exact (isTextual_of_mem_writeIdentity htype hv hpresent h).2
  · cases hv with
    | null => cases hpresent
    | float x | double x =>
      cases h
      exact isTextual_of_floating x
    | bytes bs | fixed bs =>
      cases h
      exact isTextual_of_hexadecimal bs
    | uuid => cases h
    | string s | symbol s | uuidText s => exact absurd rfl (hstring s)
    | _ => exact absurd rfl htype

/-- The text that is written for a value, and any text that it is read from, are divided alike. -/
theorem count_eq_of_readIdentity {d : Char} (hd : isLegible d = false)
    (hwrite : hudi.writeIdentity v type "" = .ok written)
    (hread : hudi.readIdentity text type "" = .ok v) :
    text.toList.count d = written.toList.count d := by
  obtain ⟨hcanonical, hpresent⟩ := canonical_of_readIdentity hread
  by_cases hstring : ∃ s, v = .string s
  · obtain ⟨s, rfl⟩ := hstring
    cases hcanonical
    all_goals
      cases hread
      cases hwrite
      rfl
  · have hnone : ∀ cs : List Char, (∀ c ∈ cs, isLegible c = true) → cs.count d = 0 :=
      fun cs hcs => List.count_eq_zero.mpr fun hmem => by simp [hcs d hmem] at hd
    rcases isLegible_of_readIdentity hread with hsame | hlegible
    · exact absurd ⟨text, hsame⟩ hstring
    · rw [hnone _ hlegible, hnone _ fun c hc => isLegible_of_isTextual
        (isTextual_of_writeIdentity hcanonical hpresent (fun s hs => hstring ⟨s, hs⟩) hwrite c hc)]

end TableFormat

/-! ## Buckets -/

namespace Bucket

variable {type : DataType} {t : Transform} {v value : Value} {source text written : String}

theorem isNull_of_canonical {millis : Int64} (h : canonical millis type = .ok value) :
    value.isNull = false := by
  unfold canonical at h
  split at h
  · obtain ⟨day, -, h⟩ := bind_eq_ok.mp h
    cases h
    rfl
  · cases h
    rfl

/-- What is read off a bucket is present. -/
theorem isNull_of_parse (h : parse text type t source = .ok value) : value.isNull = false := by
  unfold parse at h
  split at h
  · obtain ⟨p, -, h⟩ := bind_eq_ok.mp h
    obtain ⟨begin, -, h⟩ := bind_eq_ok.mp h
    exact isNull_of_canonical h
  · cases h

/-- **A bucket is read from texts with the foreign characters of its own text.** -/
theorem count_eq_of_parse {d : Char} (hd : DatePattern.Foreign d)
    (hwrite : render v type t source = .ok written)
    (hread : parse text type t source = .ok value) :
    text.toList.count d = written.toList.count d := by
  obtain ⟨htype, p, millis, begin, c, hp, -, -, -, -, rfl⟩ := render_eq_ok hwrite
  unfold parse at hread
  rw [if_pos htype, hp, ok_bind] at hread
  obtain ⟨begin', hbegin', -⟩ := bind_eq_ok.mp hread
  obtain ⟨millis', hmillis', -⟩ := bind_eq_ok.mp (mapError_eq_ok.mp hbegin')
  obtain ⟨clock, hclock, -⟩ := DatePattern.readMillis_eq_ok.mp hmillis'
  rw [DatePattern.count_of_read hd hclock, String.toList_ofList]
  exact (DatePattern.count_write hd.plain c p.tokens).symm

end Bucket

namespace TableFormat

variable {format : TableFormat} {type : DataType} {t : Transform} {v value : Value}
  {text written pattern : String}

/-- A text never stands for an absent value. -/
theorem isNull_of_fromNative
    (h : format.partitionFromNative (some text) type t pattern = .ok value) :
    value.isNull = false := by
  unfold partitionFromNative at h
  simp only at h
  split at h
  · exact Bucket.isNull_of_parse h
  · exact (canonical_of_readIdentity h).2

/-- **What is written for a value, and what is read as what is kept of it, are divided alike**:
they have the same slashes and the same equals signs. -/
theorem count_eq_of_fromNative {d : Char} (hd : isLegible d = false)
    (hpattern : t.isTimeBased = false → pattern = "")
    (hwrite : hudi.partitionToNative v type t pattern = .ok (some written))
    (hread : hudi.partitionFromNative (some text) type t pattern = .ok value)
    (hvalue : t.isTimeBased = false → value = v) :
    text.toList.count d = written.toList.count d := by
  unfold partitionToNative at hwrite
  unfold partitionFromNative at hread
  split at hwrite
  · cases hwrite
  · by_cases htime : t.isTimeBased = true
    · rw [if_pos htime] at hwrite
      simp only [if_pos htime] at hread
      obtain ⟨plain, hplain, hsome⟩ := bind_eq_ok.mp hwrite
      cases hsome
      exact Bucket.count_eq_of_parse (foreign_of_not_isLegible hd) hplain hread
    · have hvalue' : t.isTimeBased = false := by simpa using htime
      rw [if_neg htime, hpattern hvalue'] at hwrite
      simp only [if_neg htime, hpattern hvalue', hvalue hvalue'] at hread
      obtain ⟨plain, hplain, hsome⟩ := bind_eq_ok.mp hwrite
      cases hsome
      exact count_eq_of_readIdentity hd hplain hread

end TableFormat

end Lakehouse
