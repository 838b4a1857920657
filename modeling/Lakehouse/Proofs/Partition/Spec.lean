import Lakehouse.Partition.Spec
import Lakehouse.Proofs.Except
import Lakehouse.Proofs.Text.Blank
import Lakehouse.Proofs.Text.Cut
import Mathlib.Data.List.Basic

/-!
# Partition specs and their texts

An entry divides at its first two colons; behind the second one it may have more. What stands around
them says whether the entry is a spec, and which one. A spec has a text of its own, which is read
as the spec again, also in a list.

* `PartitionSpec.Divides`: the three parts of an entry.
* `PartitionSpec.Declares`: the spec that an entry declares.
* `PartitionSpec.parse_eq_ok_iff`: what is read is what is declared.
* `PartitionSpec.Listed`: the specs whose texts can stand in a list.
* `PartitionSpec.text_and_spec_correspond`: texts and specs correspond.

About `PartitionFieldSpec::parse` and `PartitionFieldSpec::parse_list`, which are modelled in
`Partition.Spec`.
-/

namespace Lakehouse

/-! ## Names of transforms -/

namespace Transform

theorem upper_name (t : Transform) : Text.upper t.name = t.name := by
  cases t <;> decide +kernel

/-- **A transform is read from its name in any case**, with blanks around it. -/
theorem parse_eq_ok_iff {text : String} {t : Transform} :
    parse text = .ok t ↔ Text.sameLetters (Text.trim text) t.name = true := by
  rw [Text.sameLetters_iff, upper_name]
  unfold parse
  constructor
  · intro h
    simp only at h
    split at h
    · rename_i found hfound
      cases h
      have hname := List.find?_some (show all.find? _ = some t from hfound)
      exact (of_decide_eq_true hname).symm
    · cases h
  · intro h
    simp only [h, ofName?_name]

theorem kind_of_parse {text : String} {f : Fault} (h : parse text = .error f) :
    f.kind = .invalidPartitionSpec := by
  unfold parse at h
  simp only at h
  split at h
  · cases h
  · cases h
    rfl

/-- The name of a transform has letters only. -/
theorem isAlpha_of_mem_name (t : Transform) : ∀ c ∈ t.name.toList, c.isAlpha = true := by
  rw [← List.all_eq_true]
  cases t <;> decide

end Transform

namespace PartitionSpec

/-! ## What an entry declares -/

/-- An entry divides at its first two colons. Without a second colon nothing stands behind it. -/
inductive Divides : List Char → List Char → List Char → List Char → Prop where
  | once {source name : List Char} : ':' ∉ source → ':' ∉ name →
      Divides (source ++ ':' :: name) source name []
  | twice {source name : List Char} (rest : List Char) : ':' ∉ source → ':' ∉ name →
      Divides (source ++ ':' :: (name ++ ':' :: rest)) source name rest

/-- The spec with these parts. -/
def ofParts (source : List Char) (t : Transform) (rest : List Char) : PartitionSpec :=
  ⟨String.ofList source, t, if t.isTimeBased then some (String.ofList rest) else none⟩

/-- The spec that an entry declares: there is a column, there is the name of a transform, in any
case, and there is a pattern exactly if the transform is one of time. Blanks around the parts do not
count. -/
inductive Declares (entry : String) : PartitionSpec → Prop where
  | spec {source name rest : List Char} {t : Transform}
      (parts : Divides entry.toList source name rest)
      (column : source.all Text.isBlank = false)
      (transform : Text.sameLetters (Text.trim (String.ofList name)) t.name = true)
      (pattern : rest.all Text.isBlank = false ↔ t.isTimeBased = true) :
      Declares entry (ofParts (Text.trimmed source) t (Text.trimmed rest))

variable {entry list : String} {s : PartitionSpec} {specs : List PartitionSpec} {f : Fault}
  {source name rest : List Char} {t : Transform}

/-- An entry without colons does not divide, and any other does. -/
theorem divides_cases (cs : List Char) :
    ':' ∉ cs ∨ ∃ source name rest, Divides cs source name rest := by
  rcases Text.cut_cases ':' cs with ⟨hcolon, -⟩ | ⟨source, behind, rfl, hsource, -⟩
  · exact .inl hcolon
  · rcases Text.cut_cases ':' behind with ⟨hname, -⟩ | ⟨name, rest, rfl, hname, -⟩
    · exact .inr ⟨source, behind, [], .once hsource hname⟩
    · exact .inr ⟨source, name, rest, .twice rest hsource hname⟩

theorem formatOf_some (rest : List Char) : formatOf (some rest) =
    if rest.all Text.isBlank then none else some (String.ofList (Text.trimmed rest)) := by
  unfold formatOf
  rw [Option.map_some]
  split
  · contradiction
  · rename_i htrimmed
    rw [if_pos (Text.trimmed_eq_nil_iff.mp (Option.some.inj htrimmed))]
  · rename_i pattern hpattern htrimmed
    rw [← Option.some.inj htrimmed] at hpattern ⊢
    rw [if_neg fun hblank => hpattern (by rw [Text.trimmed_eq_nil_iff.mpr hblank])]

/-- The spec of an entry from its parts and its transform, or what is wrong with them. -/
def assemble (entry : String) (source rest : List Char) (t : Transform) :
    Except Fault PartitionSpec :=
  match t.isTimeBased, rest.all Text.isBlank with
  | true, true => .error (Problem.noFormat entry t).fault
  | false, false => .error (Problem.formatOnValue entry).fault
  | true, false =>
    .ok ⟨String.ofList (Text.trimmed source), t, some (String.ofList (Text.trimmed rest))⟩
  | false, true => .ok ⟨String.ofList (Text.trimmed source), t, none⟩

theorem assemble_eq_ok_iff {source rest : List Char} {t : Transform} :
    assemble entry source rest t = .ok s ↔
      (rest.all Text.isBlank = false ↔ t.isTimeBased = true) ∧
      s = ofParts (Text.trimmed source) t (Text.trimmed rest) := by
  unfold assemble ofParts
  cases t.isTimeBased <;> cases rest.all Text.isBlank <;> simp [eq_comm]

theorem kind_of_assemble {source rest : List Char} {t : Transform}
    (h : assemble entry source rest t = .error f) : f.kind = .invalidPartitionSpec := by
  unfold assemble at h
  split at h <;> cases h <;> rfl

/-- An entry is read from its parts. -/
theorem parse_of_divides {source name rest : List Char}
    (h : Divides entry.toList source name rest) : parse entry =
      if source.all Text.isBlank then .error (Problem.noField entry).fault
      else Transform.parse (String.ofList name) >>= assemble entry source rest := by
  have hblank : String.ofList (Text.trimmed source) = "" ↔ source.all Text.isBlank = true := by
    rw [← Text.trimmed_eq_nil_iff, ← String.toList_inj, String.toList_ofList]
    rfl
  unfold parse
  generalize entry.toList = cs at h
  cases h with
  | once hsource hname =>
    simp only [Text.cut_append hsource, Text.cut_of_not_mem hname, hblank]
    refine if_congr Iff.rfl rfl (congrArg _ (funext fun t => ?_))
    unfold assemble
    rw [show formatOf none = formatOf (some []) from rfl, formatOf_some]
    cases t.isTimeBased <;> rfl
  | twice rest hsource hname =>
    simp only [Text.cut_append hsource, Text.cut_append hname, hblank]
    refine if_congr Iff.rfl rfl (congrArg _ (funext fun t => ?_))
    unfold assemble
    rw [formatOf_some]
    cases t.isTimeBased <;> cases rest.all Text.isBlank <;> rfl

/-- **What is read of an entry is what it declares.** -/
theorem parse_eq_ok_iff : parse entry = .ok s ↔ Declares entry s := by
  constructor
  · intro h
    rcases divides_cases entry.toList with hcolon | ⟨source, name, rest, hparts⟩
    · unfold parse at h
      simp only [Text.cut_of_not_mem hcolon] at h
      split at h <;> cases h
    · rw [parse_of_divides hparts] at h
      obtain ⟨hcolumn, h⟩ := ite_error_eq_ok.mp h
      obtain ⟨t, ht, h⟩ := bind_eq_ok.mp h
      obtain ⟨hpattern, rfl⟩ := assemble_eq_ok_iff.mp h
      exact .spec hparts (Bool.eq_false_iff.mpr hcolumn) (Transform.parse_eq_ok_iff.mp ht) hpattern
  · rintro ⟨hparts, hcolumn, hname, hpattern⟩
    rw [parse_of_divides hparts, hcolumn, if_neg Bool.false_ne_true,
      Transform.parse_eq_ok_iff.mpr hname, ok_bind]
    exact assemble_eq_ok_iff.mpr ⟨hpattern, rfl⟩

/-- Whatever is wrong with an entry, it is an invalid spec. -/
theorem kind_of_parse (h : parse entry = .error f) : f.kind = .invalidPartitionSpec := by
  rcases divides_cases entry.toList with hcolon | ⟨source, name, rest, hparts⟩
  · unfold parse at h
    simp only [Text.cut_of_not_mem hcolon] at h
    split at h <;> cases h <;> rfl
  · rw [parse_of_divides hparts] at h
    split at h
    · cases h
      rfl
    · rcases bind_eq_error.mp h with h | ⟨t, -, h⟩
      · exact Transform.kind_of_parse h
      · exact kind_of_assemble h

/-! ## The text of a spec -/

theorem toList_text (source : List Char) (t : Transform) (rest : List Char) :
    (ofParts source t rest).text.toList =
      source ++ ':' :: (t.name.toList ++ if t.isTimeBased then ':' :: rest else []) := by
  unfold text ofParts
  cases t.isTimeBased <;> simp [toString]

theorem not_mem_name {c : Char} (hc : c.isAlpha = false) (t : Transform) : c ∉ t.name.toList := by
  intro hmem
  rw [t.isAlpha_of_mem_name c hmem] at hc
  cases hc

theorem Divides.not_mem_source {cs : List Char} (h : Divides cs source name rest) :
    ':' ∉ source := by
  cases h with
  | once hsource | twice _ hsource => exact hsource

theorem Divides.subset {cs : List Char} (h : Divides cs source name rest) :
    source ⊆ cs ∧ rest ⊆ cs := by
  cases h with
  | once => simp
  | twice rest =>
    refine ⟨List.subset_append_left _ _, fun c hc => ?_⟩
    simp [hc]

theorem divides_text (h : ':' ∉ source) (rest : List Char) :
    Divides (ofParts source t rest).text.toList source t.name.toList
      (if t.isTimeBased then rest else []) := by
  rw [toList_text]
  have hname : ':' ∉ t.name.toList := not_mem_name (by decide) t
  cases t.isTimeBased with
  | false =>
    rw [if_neg Bool.false_ne_true, if_neg Bool.false_ne_true, List.append_nil]
    exact .once h hname
  | true => exact .twice rest h hname

/-- **The text of a spec declares the spec.** -/
theorem Declares.text (h : Declares entry s) : Declares s.text s := by
  obtain @⟨source, name, rest, t, hparts, hcolumn, -, hpattern⟩ := h
  have hsource : ':' ∉ Text.trimmed source := fun hmem =>
    hparts.not_mem_source (Text.trimmed_subset source hmem)
  have hname : Text.sameLetters (Text.trim (String.ofList t.name.toList)) t.name = true := by
    cases t <;> decide +kernel
  have hsame : ofParts (Text.trimmed source) t (Text.trimmed rest) =
      ofParts (Text.trimmed (Text.trimmed source)) t
        (Text.trimmed (if t.isTimeBased then Text.trimmed rest else [])) := by
    unfold ofParts
    rw [Text.trimmed_trimmed]
    cases t.isTimeBased with
    | true => rw [if_pos rfl, if_pos rfl, if_pos rfl, Text.trimmed_trimmed]
    | false => rfl
  have htext := divides_text hsource (Text.trimmed rest) (t := t)
  rw [hsame] at htext ⊢
  refine .spec htext (by rw [Text.all_isBlank_trimmed, hcolumn]) hname ?_
  cases htime : t.isTimeBased with
  | true => simp [Text.all_isBlank_trimmed, hpattern, htime]
  | false => simp

/-- The text of a spec has no blanks at its ends. -/
theorem Declares.trim_text (h : Declares entry s) : Text.trim s.text = s.text := by
  obtain @⟨source, name, rest, t, hparts, hcolumn, -, hpattern⟩ := h
  have hsource : Text.trimmed source ≠ [] := by
    rw [ne_eq, Text.trimmed_eq_nil_iff, hcolumn]
    exact Bool.false_ne_true
  unfold Text.trim
  rw [Text.trimmed_of_ends, String.ofList_toList]
  · intro c hc
    rw [toList_text, List.head?_append_of_ne_nil _ hsource] at hc
    exact (Text.ends_trimmed source).1 c hc
  · intro c hc
    rw [toList_text, List.getLast?_append_of_ne_nil _ (List.cons_ne_nil _ _)] at hc
    cases htime : t.isTimeBased with
    | false =>
      rw [htime, if_neg Bool.false_ne_true, List.append_nil] at hc
      rcases List.mem_cons.mp (List.mem_of_mem_getLast? hc) with rfl | hname
      · decide
      · exact Text.isBlank_of_isAlpha (t.isAlpha_of_mem_name c hname)
    | true =>
      have hrest : Text.trimmed rest ≠ [] := by
        rw [ne_eq, Text.trimmed_eq_nil_iff, hpattern.mpr htime]
        exact Bool.false_ne_true
      rw [htime, if_pos rfl, List.getLast?_cons_of_ne_nil (by simp),
        List.getLast?_append_of_ne_nil _ (List.cons_ne_nil _ _),
        List.getLast?_cons_of_ne_nil hrest] at hc
      exact (Text.ends_trimmed rest).2 c hc

/-- The text of a spec has no commas if the entry has none. -/
theorem Declares.comma_not_mem_text (h : Declares entry s) (hcomma : ',' ∉ entry.toList) :
    ',' ∉ s.text.toList := by
  obtain @⟨source, name, rest, t, hparts, -, -, -⟩ := h
  obtain ⟨hsource, hrest⟩ := hparts.subset
  have hname : ',' ∉ t.name.toList := not_mem_name (by decide) t
  have hsource : ',' ∉ Text.trimmed source := fun hmem =>
    hcomma (hsource (Text.trimmed_subset source hmem))
  have hrest : ',' ∉ Text.trimmed rest := fun hmem => hcomma (hrest (Text.trimmed_subset rest hmem))
  rw [toList_text]
  cases t.isTimeBased <;> simp [hname, hsource, hrest]

/-! ## Lists -/

/-- A spec with a text that stands for it in a list. -/
structure Listed (s : PartitionSpec) : Prop where
  text : parse s.text = .ok s
  comma : ',' ∉ s.text.toList
  trim : Text.trim s.text = s.text
  nonempty : s.text ≠ ""

theorem Declares.listed (h : Declares entry s) (hcomma : ',' ∉ entry.toList) : Listed s where
  text := parse_eq_ok_iff.mpr h.text
  comma := h.comma_not_mem_text hcomma
  trim := h.trim_text
  nonempty := by
    obtain @⟨source, name, rest, t, -, -, -, -⟩ := h
    rw [ne_eq, ← String.toList_inj, toList_text]
    simp

/-- An entry of a list has no commas. -/
theorem comma_not_mem_entries (h : entry ∈ entries list) : ',' ∉ entry.toList := by
  obtain ⟨piece, hpiece, rfl⟩ := List.mem_map.mp (List.mem_filter.mp h).1
  obtain ⟨cs, hcs, rfl⟩ := List.mem_map.mp hpiece
  intro hcomma
  unfold Text.trim at hcomma
  rw [String.toList_ofList, String.toList_ofList] at hcomma
  exact Text.not_mem_of_mem_splitOn hcs (Text.trimmed_subset cs hcomma)

/-- The specs that are read of a list are specs that can stand in one. -/
theorem listed_of_parseList (h : parseList list = .ok specs) : ∀ s ∈ specs, Listed s := by
  have hentries : ∀ entry ∈ entries list, ',' ∉ entry.toList := fun _ => comma_not_mem_entries
  unfold parseList at h
  generalize entries list = es at h hentries
  induction es generalizing specs with
  | nil =>
    cases h
    simp
  | cons entry es ih =>
    obtain ⟨s, rest, hs, hrest, rfl⟩ := mapM_eq_ok_cons.mp h
    obtain ⟨hcomma, hcommas⟩ := List.forall_mem_cons.mp hentries
    exact List.forall_mem_cons.mpr ⟨(parse_eq_ok_iff.mp hs).listed hcomma, ih hrest hcommas⟩

/-- The entries of texts that are joined with commas are the texts. -/
theorem entries_intercalate (h : ∀ s ∈ specs, Listed s) :
    entries (String.intercalate "," (specs.map text)) = specs.map text := by
  by_cases hne : specs = []
  · subst hne
    rfl
  · have hpieces : Text.pieces ',' (String.intercalate "," (specs.map text)) = specs.map text :=
      Text.pieces_intercalate (by simpa using hne)
        (List.forall_mem_map.mpr fun s hs => (h s hs).comma)
    have htrim : (specs.map text).map Text.trim = specs.map text := by
      rw [List.map_map]
      exact List.map_congr_left fun s hs => (h s hs).trim
    unfold entries
    rw [hpieces, htrim, List.filter_eq_self, List.forall_mem_map]
    exact fun s hs => decide_eq_true (h s hs).nonempty

/-- **The list of the texts of specs is read as the specs.** -/
theorem parseList_intercalate (h : ∀ s ∈ specs, Listed s) :
    parseList (String.intercalate "," (specs.map text)) = .ok specs := by
  unfold parseList
  rw [entries_intercalate h, List.mapM_map]
  have hread : ∀ s ∈ specs, (parse ∘ text) s = .ok (id s) := fun s hs => by
    rw [Function.comp_apply, id]
    exact (h s hs).text
  rw [mapM_eq_ok_map hread, List.map_id]

/-- **Texts and specs correspond.** An entry is read as the spec that it declares, and is an invalid
spec if it declares none. The text of a spec is read as the spec; and the texts of the specs of a
list, with commas between them, are read as these specs. -/
theorem text_and_spec_correspond :
    (∀ entry s, parse entry = .ok s ↔ Declares entry s) ∧
    (∀ entry f, parse entry = .error f → f.kind = .invalidPartitionSpec) ∧
    (∀ entry s, parse entry = .ok s → parse s.text = .ok s) ∧
    ∀ list specs, parseList list = .ok specs →
      parseList (String.intercalate "," (specs.map text)) = .ok specs := by
  refine ⟨fun _ _ => parse_eq_ok_iff, fun _ _ => kind_of_parse, ?_, ?_⟩
  · intro entry s h
    exact parse_eq_ok_iff.mpr (parse_eq_ok_iff.mp h).text
  · intro list specs h
    exact parseList_intercalate (listed_of_parseList h)

/-- Blank entries, blanks of every kind around the parts, colons in a pattern, a blank behind the
second colon of a value, and an entry with a pattern too many. -/
theorem text_and_spec_correspond_colons :
    (∃ specs : List PartitionSpec,
      specs = [⟨"ts", .hour, some "yyyy-MM-dd HH:mm"⟩, ⟨"region", .value, none⟩] ∧
      parseList "ts\u3000: Hour : yyyy-MM-dd HH:mm ,, region :value: " = .ok specs ∧
      parseList (String.intercalate "," (specs.map text)) = .ok specs) ∧
    (∃ s : PartitionSpec, s = ⟨"a", .day, some "x:y"⟩ ∧ Declares "a:DAY:x:y" s ∧
      parse s.text = .ok s) ∧
    ∃ f, parse "region:VALUE:yyyy" = .error f ∧ f.kind = .invalidPartitionSpec := by
  obtain ⟨hreads, hkinds, htexts, hlists⟩ := text_and_spec_correspond
  refine ⟨⟨_, rfl, ?_⟩, ⟨_, rfl, ?_⟩, ?_⟩
  · have hlist : parseList "ts\u3000: Hour : yyyy-MM-dd HH:mm ,, region :value: " =
        .ok [⟨"ts", .hour, some "yyyy-MM-dd HH:mm"⟩, ⟨"region", .value, none⟩] := by
      decide +kernel
    have hagain := hlists _ _ hlist
    exact ⟨hlist, hagain⟩
  · have hentry : parse "a:DAY:x:y" = .ok ⟨"a", .day, some "x:y"⟩ := by decide +kernel
    have hagain := htexts _ _ hentry
    exact ⟨(hreads _ _).mp hentry, hagain⟩
  · have hfault : parse "region:VALUE:yyyy" =
        .error (Problem.formatOnValue "region:VALUE:yyyy").fault := by decide +kernel
    have hkind := hkinds _ _ hfault
    exact ⟨_, hfault, hkind⟩

end PartitionSpec

end Lakehouse
