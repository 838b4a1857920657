import Lakehouse.Proofs.Partition.Path
import Lakehouse.Proofs.Text.Blank
import Mathlib

/-!
# Windows of a path

Parsing a path cuts it into windows, one for each entry: as many segments as the pattern of the
entry has, with the slashes between them. A path is parsed as values exactly if its windows are,
each by itself.

* `PartitionPath.strip_spec`: what is stripped off a path.
* `PartitionPath.segments_eq_iff`: the segments of a path are those of the texts that it joins.
* `PartitionPath.parse_eq_ok_iff`: a path is parsed as the values of its windows.
* `Text.measure_eq_of_intercalate_le`: when two paths measure the same and no part of one exceeds
  its part of the other, their parts measure the same.
-/

namespace Lakehouse

/-! ## Measures of joined texts -/

namespace Text

variable {ρ : Type} {f : List Char → Nat}

/-- A measure that adds up counts one separator less than there are parts. -/
theorem measure_intercalate_map (sep : Char) (s : ρ → List Char)
    (hf : ∀ a b, f (a ++ b) = f a + f b) {rows : List ρ} (h : rows ≠ []) :
    f ([sep].intercalate (rows.map s)) + f [sep] =
      (rows.map fun row => f (s row) + f [sep]).sum := by
  induction rows with
  | nil => exact absurd rfl h
  | cons row rest ih =>
    cases rest with
    | nil => simp
    | cons next more =>
      have hrest := ih (List.cons_ne_nil next more)
      simp only [List.map_cons] at hrest ⊢
      rw [List.intercalate_cons_cons, hf, hf, List.sum_cons, ← hrest]
      omega

/-- Summands that do not exceed others, in a sum that is not less, are the others. -/
theorem eq_of_sum_le {g h : ρ → Nat} {rows : List ρ} (hle : ∀ row ∈ rows, g row ≤ h row)
    (hsum : (rows.map h).sum ≤ (rows.map g).sum) : ∀ row ∈ rows, g row = h row := by
  have hmono : ∀ rest : List ρ, (∀ row ∈ rest, g row ≤ h row) →
      (rest.map g).sum ≤ (rest.map h).sum := fun rest hrest => List.sum_le_sum hrest
  induction rows with
  | nil => simp
  | cons row rest ih =>
    obtain ⟨hrow, hrest⟩ := List.forall_mem_cons.mp hle
    have hsums := hmono rest hrest
    simp only [List.map_cons, List.sum_cons] at hsum
    exact List.forall_mem_cons.mpr ⟨by omega, ih hrest (by omega)⟩

/-- **Parts that do not exceed others, in a text that measures no less, measure the same.** -/
theorem measure_eq_of_intercalate_le (sep : Char) (hf : ∀ a b, f (a ++ b) = f a + f b)
    {rows : List ρ} {s t : ρ → List Char} (hle : ∀ row ∈ rows, f (s row) ≤ f (t row))
    (hsum : f ([sep].intercalate (rows.map t)) ≤ f ([sep].intercalate (rows.map s))) :
    ∀ row ∈ rows, f (s row) = f (t row) := by
  by_cases hrows : rows = []
  · simp [hrows]
  · have hs := measure_intercalate_map sep s hf hrows
    have ht := measure_intercalate_map sep t hf hrows
    intro row hrow
    exact Nat.add_right_cancel (eq_of_sum_le
      (fun r hr => Nat.add_le_add_right (hle r hr) (f [sep])) (by omega) row hrow)

/-- Texts whose parts measure the same, measure the same. -/
theorem measure_intercalate_congr (sep : Char) (hf : ∀ a b, f (a ++ b) = f a + f b) {rows : List ρ}
    {s t : ρ → List Char} (h : ∀ row ∈ rows, f (s row) = f (t row)) :
    f ([sep].intercalate (rows.map s)) = f ([sep].intercalate (rows.map t)) := by
  by_cases hrows : rows = []
  · rw [hrows]
    rfl
  · have hs := measure_intercalate_map sep s hf hrows
    have ht := measure_intercalate_map sep t hf hrows
    have hsum : (rows.map fun row => f (s row) + f [sep]) =
        rows.map fun row => f (t row) + f [sep] :=
      List.map_congr_left fun row hrow => by rw [h row hrow]
    rw [hsum] at hs
    omega

end Text

namespace PartitionPath

/-! ## Stripping -/

/-- **Nothing but slashes is stripped**, at the two ends. -/
theorem strip_spec (cs : List Char) : ∃ front back,
    cs = List.replicate front '/' ++ strip cs ++ List.replicate back '/' := by
  have hfront := DatePattern.eq_replicate_append '/' cs
  have hback := congrArg List.reverse
    (DatePattern.eq_replicate_append '/' (cs.dropWhile (· == '/')).reverse)
  rw [List.reverse_reverse, List.reverse_append, List.reverse_replicate] at hback
  rw [hback, ← List.append_assoc] at hfront
  exact ⟨_, _, hfront⟩

/-- A stripped path neither starts nor ends with a slash. -/
theorem strip_ends (cs : List Char) :
    (strip cs).head? ≠ some '/' ∧ (strip cs).getLast? ≠ some '/' := by
  obtain ⟨hhead, hlast⟩ := Text.ends_of_dropWhile (· == '/') cs
  constructor
  · intro h
    have hslash := hhead '/' h
    simp at hslash
  · intro h
    have hslash := hlast '/' h
    simp at hslash

/-- A path is left as it is when it neither starts nor ends with a slash. -/
theorem strip_eq_self_iff {cs : List Char} :
    strip cs = cs ↔ cs.head? ≠ some '/' ∧ cs.getLast? ≠ some '/' := by
  constructor
  · intro hself
    have hends := strip_ends cs
    rwa [hself] at hends
  · rintro ⟨hhead, hlast⟩
    exact strip_eq_self hhead hlast

theorem count_strip {d : Char} (hd : d ≠ '/') (cs : List Char) :
    (strip cs).count d = cs.count d := by
  obtain ⟨front, back, hcs⟩ := strip_spec cs
  conv_rhs => rw [hcs]
  simp [List.count_replicate, hd.symm]

theorem count_strip_le (d : Char) (cs : List Char) : (strip cs).count d ≤ cs.count d := by
  obtain ⟨front, back, hcs⟩ := strip_spec cs
  have hcount := congrArg (List.count d) hcs
  simp only [List.count_append] at hcount
  omega

/-- A path with no more slashes than its stripped form was not stripped. -/
theorem strip_eq_self_of_count {cs : List Char} (h : cs.count '/' ≤ (strip cs).count '/') :
    strip cs = cs := by
  obtain ⟨front, back, hcs⟩ := strip_spec cs
  have hcount := congrArg (List.count '/') hcs
  simp only [List.count_append, List.count_replicate_self] at hcount
  have hfront : front = 0 := by omega
  have hback : back = 0 := by omega
  simpa [hfront, hback] using hcs.symm

theorem length_strip_le (cs : List Char) : (strip cs).length ≤ cs.length := by
  obtain ⟨front, back, hcs⟩ := strip_spec cs
  have hlength := congrArg List.length hcs
  simp only [List.length_append] at hlength
  omega

theorem segments_of_strip {path : String} (h : strip path.toList ≠ []) :
    segments path = (strip path.toList).splitOn '/' := by
  unfold segments
  split
  · contradiction
  · rfl

/-- **The segments of a path are those of the texts that it joins.** -/
theorem segments_eq_iff {ρ : Type} {path : String} {rows : List ρ} {window : ρ → List Char} :
    segments path = (rows.flatMap fun row => (window row).splitOn '/') ↔
      strip path.toList = ['/'].intercalate (rows.map window) ∧
        (rows ≠ [] → strip path.toList ≠ []) := by
  by_cases hpath : strip path.toList = []
  · have hnone : segments path = [] := by
      unfold segments
      rw [hpath]
    rw [hnone, hpath]
    cases rows with
    | nil => simp
    | cons row rest => simp
  · rw [segments_of_strip hpath]
    by_cases hrows : rows = []
    · subst hrows
      simpa using hpath
    · have hjoin : (['/'].intercalate (rows.map window)).splitOn '/' = _ :=
        Text.splitOn_intercalate (mt List.map_eq_nil_iff.mp hrows)
      rw [List.flatMap_map] at hjoin
      rw [← hjoin]
      constructor
      · intro h
        have hsame := congrArg (['/'].intercalate ·) h
        simp only [List.intercalate_splitOn] at hsame
        exact ⟨hsame, fun _ => hpath⟩
      · rintro ⟨hstrip, -⟩
        rw [hstrip]

/-! ## Labels -/

/-- What a window holds, behind its label if it has one. -/
def behind (entry : PartitionSpec) (window : List Char) : String :=
  String.ofList ((Text.stripStart? (label entry).toList window).getD window)

/-- A text as it stands in a path: in the other style behind its label. -/
def tagged (labelled : Bool) (entry : PartitionSpec) (text : List Char) : List Char :=
  if labelled then (label entry).toList ++ text else text

theorem stripStart?_eq_none {start cs : List Char} (h : ¬start <+: cs) :
    Text.stripStart? start cs = none :=
  if_neg (mt List.isPrefixOf_iff_prefix.mp h)

/-- Behind its label stands the text, unless the text looks labelled itself. -/
theorem behind_tagged {labelled : Bool} {entry : PartitionSpec} {text : List Char}
    (h : labelled = false → ¬(label entry).toList <+: text) :
    behind entry (tagged labelled entry text) = String.ofList text := by
  unfold behind tagged
  cases labelled with
  | true => rw [if_pos rfl, stripStart?_append, Option.getD_some]
  | false => rw [if_neg (by simp), stripStart?_eq_none (h rfl), Option.getD_none]

/-- **Every window is the text behind its label**, with the label or without one. -/
theorem exists_tagged (entry : PartitionSpec) (window : List Char) :
    ∃ labelled, window = tagged labelled entry (behind entry window).toList ∧
      (labelled = false → ¬(label entry).toList <+: window) := by
  unfold behind tagged
  by_cases hlabel : (label entry).toList <+: window
  · obtain ⟨text, rfl⟩ := hlabel
    exact ⟨true, by simp [stripStart?_append], nofun⟩
  · exact ⟨false, by simp [stripStart?_eq_none hlabel], fun _ => hlabel⟩

theorem count_tagged (d : Char) (labelled : Bool) (entry : PartitionSpec) (text : List Char) :
    (tagged labelled entry text).count d =
      (if labelled then (label entry).toList.count d else 0) + text.count d := by
  unfold tagged
  cases labelled <;> simp

/-- A text has no more of a character than behind its label. -/
theorem count_tagged_le (d : Char) (labelled : Bool) (entry : PartitionSpec) (text : List Char) :
    (tagged labelled entry text).count d ≤ (tagged true entry text).count d := by
  rw [count_tagged, count_tagged]
  cases labelled <;> simp

/-- A label has an equals sign. -/
theorem count_label_pos (entry : PartitionSpec) : 0 < (label entry).toList.count '=' := by
  rw [List.count_pos_iff]
  simp [label]

/-- A text has more equals signs with its label than without. -/
theorem labelled_eq_of_count {a b : Bool} {entry : PartitionSpec} {text : List Char}
    (h : (tagged a entry text).count '=' = (tagged b entry text).count '=') : a = b := by
  have hlabel := count_label_pos entry
  rw [count_tagged, count_tagged] at h
  cases a <;> cases b <;> simp at h ⊢ <;> omega

/-! ## Parsing -/

variable {ρ : Type} {schema : Schema} {spec : ρ → PartitionSpec} {value : ρ → PartitionValue}

theorem toList_path {texts : ρ → String} (entries : List ρ) :
    (String.intercalate "/" (entries.map texts)).toList =
      ['/'].intercalate (entries.map fun entry => (texts entry).toList) := by
  rw [String.toList_intercalate, List.map_map]
  rfl

/-- What is written for a value stands in the path behind its label. -/
theorem renderValue_eq {labelled : Bool} {entry : PartitionSpec} {v : Value} {type : DataType}
    {native : Option String} {text : String} (htype : columnType entry schema = .ok type)
    (hnative : TableFormat.hudi.partitionToNative v type entry.transform entry.pattern = .ok native)
    (htext : native.getD absent = text) :
    renderValue schema labelled entry v =
      .ok (String.ofList (tagged labelled entry text.toList)) := by
  unfold renderValue
  rw [htype, ok_bind, hnative, ok_bind, htext]
  unfold tagged
  cases labelled with
  | true =>
    have hchars : label entry ++ text = String.ofList ((label entry).toList ++ text.toList) := by
      rw [← String.toList_append, String.ofList_toList]
    exact congrArg Except.ok hchars
  | false => exact congrArg Except.ok String.ofList_toList.symm

/-- A path joins the texts of its values. -/
theorem render_of_texts {schema : Schema} {specs : List PartitionSpec} {values : List Value}
    {labelled : Bool} {texts : List String} (hlength : values.length = specs.length)
    (htexts : (specs.zip values).mapM
      (fun entry => renderValue schema labelled entry.1 entry.2) = .ok texts) :
    render values specs schema labelled = .ok (String.intercalate "/" texts) := by
  unfold render
  rw [if_neg (not_not_intro hlength)]
  exact bind_eq_ok.mpr ⟨texts, htexts, rfl⟩

/-- The name of the path stands in failures only. -/
theorem parseValue_eq_ok_iff {path : String} {entry : PartitionSpec} {type : DataType}
    {window : List Char} {result : PartitionValue} :
    parseValue path entry type window = .ok result ↔
      (behind entry window = absent ∧ result = ⟨entry.field, .null⟩) ∨
      (behind entry window ≠ absent ∧ ∃ v, TableFormat.hudi.partitionFromNative
        (some (behind entry window)) type entry.transform entry.pattern = .ok v ∧
          result = ⟨entry.field, v⟩) := by
  have hbehind : String.ofList ((Text.stripStart? (label entry).toList window).getD window) =
      behind entry window := rfl
  unfold parseValue
  simp only [hbehind]
  by_cases habsent : behind entry window = absent
  · have hnull : TableFormat.hudi.partitionFromNative none type entry.transform entry.pattern =
        .ok .null := rfl
    simp [habsent, hnull, eq_comm]
  · simp only [habsent, if_false, false_and, false_or, ne_eq, not_false_eq_true, true_and]
    split
    · rename_i v hv
      simp [hv, eq_comm]
    · rename_i f hf
      simp [hf]

/-- A segment has no slashes. -/
theorem not_mem_segments {path : String} : ∀ part ∈ segments path, '/' ∉ part := by
  intro part hpart
  by_cases hpath : strip path.toList = []
  · unfold segments at hpart
    simp [hpath] at hpart
  · rw [segments_of_strip hpath] at hpart
    exact Text.not_mem_of_mem_splitOn hpart

/-- What was parsed from segments was parsed from windows of them. -/
theorem rows_of_parseValues {path : String} {fields : Nat} {entries : List ρ}
    {parts : List (List Char)} (hparts : ∀ part ∈ parts, '/' ∉ part)
    (h : parseValues path fields schema parts (entries.map spec) = .ok (entries.map value, [])) :
    ∃ rows : List (ρ × List Char), rows.map (·.1) = entries ∧
      parts = rows.flatMap (·.2.splitOn '/') ∧
      ∀ row ∈ rows, Fills schema (spec row.1) row.2 (value row.1) := by
  induction entries generalizing parts with
  | nil =>
    obtain ⟨-, rfl⟩ := Prod.mk.inj (Except.ok.inj h)
    exact ⟨[], rfl, rfl, by simp⟩
  | cons entry rest ih =>
    obtain ⟨type, htype, h⟩ := bind_eq_ok.mp h
    split at h
    · cases h
    · rename_i hlength
      obtain ⟨first, hfirst, h⟩ := bind_eq_ok.mp h
      obtain ⟨⟨values, left⟩, hrest, h⟩ := bind_eq_ok.mp h
      obtain ⟨hvalues, rfl⟩ := Prod.mk.inj (Except.ok.inj h)
      obtain ⟨rfl, rfl⟩ := List.cons.inj hvalues
      obtain ⟨rows, hrows, hdrop, hfills⟩ :=
        ih (fun part hpart => hparts part (List.mem_of_mem_drop hpart)) hrest
      have hwidth : (parts.take (width (spec entry))).length = width (spec entry) := by
        rw [List.length_take]
        omega
      have hsplit : (['/'].intercalate (parts.take (width (spec entry)))).splitOn '/' =
          parts.take (width (spec entry)) := by
        refine List.splitOn_intercalate '/'
          (fun part hpart => hparts part (List.mem_of_mem_take hpart)) fun hnil => ?_
        rw [hnil] at hwidth
        exact absurd hwidth (by simp [width])
      refine ⟨(entry, ['/'].intercalate (parts.take (width (spec entry)))) :: rows,
        by rw [List.map_cons, hrows], ?_,
        List.forall_mem_cons.mpr ⟨⟨?_, type, htype, fun other => ?_⟩, hfills⟩⟩
      · rw [List.flatMap_cons, ← hdrop, hsplit, List.take_append_drop]
      · rw [← Text.length_splitOn, hsplit, hwidth]
      · exact parseValue_eq_ok_iff.mpr (parseValue_eq_ok_iff.mp hfirst)

/-- A path that joins windows is parsed as their values. -/
theorem parse_of_fills {path : String} {entries : List ρ} {window : ρ → List Char}
    (hpath : strip path.toList = ['/'].intercalate (entries.map window))
    (hne : entries ≠ [] → strip path.toList ≠ [])
    (hfills : ∀ entry ∈ entries, Fills schema (spec entry) (window entry) (value entry)) :
    parse path (entries.map spec) schema = .ok (entries.map value) := by
  unfold parse
  simp only [segments_eq_iff.mpr ⟨hpath, hne⟩]
  exact bind_eq_ok.mpr ⟨_, parseValues_fills hfills, rfl⟩

/-- **A path is parsed as the values of its windows**: it is the windows, joined, and each of them
fills its entry. -/
theorem parse_eq_ok_iff {path : String} {entries : List ρ} :
    parse path (entries.map spec) schema = .ok (entries.map value) ↔
      ∃ rows : List (ρ × List Char), rows.map (·.1) = entries ∧
        strip path.toList = ['/'].intercalate (rows.map (·.2)) ∧
        (rows ≠ [] → strip path.toList ≠ []) ∧
        ∀ row ∈ rows, Fills schema (spec row.1) row.2 (value row.1) := by
  constructor
  · intro h
    obtain ⟨⟨values, left⟩, hvalues, h⟩ := bind_eq_ok.mp h
    simp only at h
    split at h
    · rename_i hleft
      cases h
      subst hleft
      obtain ⟨rows, hentries, hsegments, hfills⟩ := rows_of_parseValues not_mem_segments hvalues
      obtain ⟨hstrip, hne⟩ := segments_eq_iff.mp hsegments
      exact ⟨rows, hentries, hstrip, hne, hfills⟩
    · cases h
  · rintro ⟨rows, rfl, hstrip, hne, hfills⟩
    rw [List.map_map, List.map_map]
    exact parse_of_fills hstrip hne hfills

/-- A path is parsed as one value if all of it, stripped, is the window of the value. -/
theorem parse_singleton_iff {path : String} {entry : PartitionSpec} {result : PartitionValue} :
    parse path [entry] schema = .ok [result] ↔
      strip path.toList ≠ [] ∧ Fills schema entry (strip path.toList) result := by
  have hrows : parse path ([()].map fun _ => entry) schema = .ok ([()].map fun _ => result) ↔ _ :=
    parse_eq_ok_iff
  refine hrows.trans ?_
  constructor
  · rintro ⟨rows, hrows, hstrip, hne, hfills⟩
    obtain ⟨⟨⟨⟩, window⟩, rfl, -⟩ := List.map_eq_singleton_iff.mp hrows
    rw [List.map_singleton, List.intercalate_singleton] at hstrip
    exact ⟨hne (by simp), hstrip ▸ hfills _ List.mem_cons_self⟩
  · rintro ⟨hne, hfills⟩
    exact ⟨[((), strip path.toList)], rfl, by simp, fun _ => hne, by simpa using hfills⟩

end PartitionPath

end Lakehouse
