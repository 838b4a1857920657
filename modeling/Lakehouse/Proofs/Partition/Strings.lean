import Lakehouse.Proofs.Partition.Window

/-!
# Strings in a path

A string is put into a path as it is, between the separators of the path and behind its label, and
nothing in it is escaped. So a string comes back only if it divides the path as its column expects,
and looks neither absent nor, where labels are left out, labelled; and the path is not stripped.

* `PartitionPath.Intact`: a string that is told from what is around it.
* `PartitionPath.parse_path_of_strings_iff`: when a path of strings is read back.

About `partition_path` and `parse_partition_path`, which are modelled in `Partition.Path`.
-/

namespace Lakehouse.PartitionPath

variable {schema : Schema} {labelled : Bool} {spec : PartitionSpec} {s : String}

/-- A string is told from what is around it: with its label it takes the segments of its entry, it
is not the marker, and without a label it does not start with one. -/
structure Intact (labelled : Bool) (spec : PartitionSpec) (s : String) : Prop where
  slashes : (tagged labelled spec s.toList).count '/' = spec.pattern.toList.count '/'
  present : s ≠ absent
  bare : labelled = false → ¬(label spec).toList <+: s.toList

/-- The text of a string in a path. -/
def stringText (labelled : Bool) (entry : PartitionSpec × String) : String :=
  String.ofList (tagged labelled entry.1 entry.2.toList)

/-- What comes back of a string. -/
def stringAt (entry : PartitionSpec × String) : PartitionValue :=
  ⟨entry.1.field, .string entry.2⟩

/-- **A window is parsed as the string behind its label**, unless that is the marker. -/
theorem fills_string_iff {window : List Char} (hvalue : spec.transform = .value)
    (hcolumn : columnType spec schema = .ok .string) :
    Fills schema spec window (stringAt (spec, s)) ↔
      window.count '/' = spec.pattern.toList.count '/' ∧ behind spec window = s ∧ s ≠ absent := by
  have hread : TableFormat.hudi.partitionFromNative (some (behind spec window)) .string
      spec.transform spec.pattern = .ok (.string (behind spec window)) := by
    rw [hvalue]
    rfl
  constructor
  · rintro ⟨hslashes, type, htype, hparse⟩
    cases hcolumn.symm.trans htype
    refine ⟨Nat.succ.inj hslashes, ?_⟩
    rcases parseValue_eq_ok_iff.mp (hparse "") with ⟨-, hnull⟩ | ⟨hpresent, v, hv, hsame⟩
    · cases hnull
    · cases hread.symm.trans hv
      cases hsame
      exact ⟨rfl, hpresent⟩
  · rintro ⟨hslashes, rfl, hpresent⟩
    exact ⟨congrArg (· + 1) hslashes, _, hcolumn, fun path =>
      parseValue_eq_ok_iff.mpr (.inr ⟨hpresent, _, hread, rfl⟩)⟩

/-- The text of a string is the string. -/
theorem renderValue_string (hvalue : spec.transform = .value)
    (hcolumn : columnType spec schema = .ok .string) :
    renderValue schema labelled spec (.string s) =
      .ok (stringText labelled (spec, s)) := by
  have hnative : TableFormat.hudi.partitionToNative (.string s) .string spec.transform
      spec.pattern = .ok (some s) := by
    rw [hvalue]
    rfl
  exact renderValue_eq hcolumn hnative rfl

/-! ## Windows of strings -/

section Rows

variable {rows : List ((PartitionSpec × String) × List Char)}

/-- With labels the windows have the equals signs of the texts, so each has its label. -/
theorem eq_tagged_of_labelled
    (hbehind : ∀ row ∈ rows, behind row.1.1 row.2 = row.1.2)
    (hstrip : strip (['/'].intercalate (rows.map fun row => tagged true row.1.1 row.1.2.toList)) =
      ['/'].intercalate (rows.map (·.2))) :
    ∀ row ∈ rows, row.2 = tagged true row.1.1 row.1.2.toList := by
  have hequals : ∀ row ∈ rows,
      row.2.count '=' = (tagged true row.1.1 row.1.2.toList).count '=' := by
    refine Text.measure_eq_of_intercalate_le '/' (fun a b => List.count_append)
      (fun row hrow => ?_) ?_
    · obtain ⟨any, hwindow, -⟩ := exists_tagged row.1.1 row.2
      rw [hwindow, hbehind row hrow]
      exact count_tagged_le '=' any row.1.1 row.1.2.toList
    · rw [← hstrip, count_strip (by decide)]
  intro row hrow
  obtain ⟨any, hwindow, -⟩ := exists_tagged row.1.1 row.2
  rw [hbehind row hrow] at hwindow
  have hcount := hequals row hrow
  rw [hwindow] at hcount
  rw [hwindow, labelled_eq_of_count hcount]

/-- Without labels no window is longer than its text, so none has a label. -/
theorem eq_tagged_of_plain
    (hbehind : ∀ row ∈ rows, behind row.1.1 row.2 = row.1.2)
    (hstrip : strip (['/'].intercalate (rows.map fun row => tagged false row.1.1 row.1.2.toList)) =
      ['/'].intercalate (rows.map (·.2))) :
    ∀ row ∈ rows, row.2 = tagged false row.1.1 row.1.2.toList := by
  have hlength : ∀ row ∈ rows,
      (tagged false row.1.1 row.1.2.toList).length = row.2.length := by
    refine Text.measure_eq_of_intercalate_le '/' (fun a b => List.length_append)
      (fun row hrow => ?_) ?_
    · obtain ⟨any, hwindow, -⟩ := exists_tagged row.1.1 row.2
      rw [hwindow, hbehind row hrow]
      cases any <;> simp [tagged]
    · rw [← hstrip]
      exact length_strip_le _
  intro row hrow
  obtain ⟨any, hwindow, -⟩ := exists_tagged row.1.1 row.2
  rw [hbehind row hrow] at hwindow
  have hsame := hlength row hrow
  rw [hwindow] at hsame
  cases any with
  | false => exact hwindow
  | true =>
    simp [tagged, label] at hsame
    omega

end Rows

/-! ## Paths of strings -/

/-- A string that is its own text behind a label has no label. -/
theorem not_prefix_of_behind (h : behind spec s.toList = s) :
    ¬(label spec).toList <+: s.toList := by
  rintro ⟨rest, hrest⟩
  have hbehind : behind spec s.toList = String.ofList rest := by
    unfold behind
    rw [← hrest, stripStart?_append, Option.getD_some]
  rw [← h, hbehind, String.toList_ofList] at hrest
  have hlabel : (label spec).toList = [] := List.append_left_eq_self.mp hrest
  simp [label] at hlabel

/-- A window that is the text of a string, and is parsed as the string, leaves it intact. -/
theorem intact_of_fills (hvalue : spec.transform = .value)
    (hcolumn : columnType spec schema = .ok .string)
    (hfills : Fills schema spec (tagged labelled spec s.toList) (stringAt (spec, s))) :
    Intact labelled spec s := by
  obtain ⟨hslashes, hbehind, hpresent⟩ := (fills_string_iff hvalue hcolumn).mp hfills
  refine ⟨hslashes, hpresent, ?_⟩
  rintro rfl
  exact not_prefix_of_behind hbehind

/-- A string that is intact is parsed from its text. -/
theorem Intact.fills (h : Intact labelled spec s) (hvalue : spec.transform = .value)
    (hcolumn : columnType spec schema = .ok .string) :
    Fills schema spec (tagged labelled spec s.toList) (stringAt (spec, s)) := by
  refine (fills_string_iff hvalue hcolumn).mpr ⟨h.slashes, ?_, h.present⟩
  rw [behind_tagged h.bare, String.ofList_toList]

/-- A path of strings is parsed as the strings exactly if they are told from each other. -/
theorem parse_tagged_iff {entries : List (PartitionSpec × String)} {path : String}
    (hvalue : ∀ entry ∈ entries, entry.1.transform = .value)
    (hcolumns : ∀ entry ∈ entries, columnType entry.1 schema = .ok .string)
    (hpath : path.toList =
      ['/'].intercalate (entries.map fun entry => tagged labelled entry.1 entry.2.toList)) :
    parse path (entries.map (·.1)) schema = .ok (entries.map stringAt) ↔
      (∀ entry ∈ entries, Intact labelled entry.1 entry.2) ∧
      path.toList.head? ≠ some '/' ∧ path.toList.getLast? ≠ some '/' ∧
      (entries ≠ [] → path ≠ "") := by
  constructor
  · intro h
    obtain ⟨rows, rfl, hstrip, hne, hfills⟩ := parse_eq_ok_iff.mp h
    rw [List.forall_mem_map] at hvalue hcolumns ⊢
    rw [List.map_map] at hpath
    rw [hpath] at hstrip
    have hbehind : ∀ row ∈ rows, behind row.1.1 row.2 = row.1.2 := fun row hrow =>
      ((fills_string_iff (hvalue row hrow) (hcolumns row hrow)).mp (hfills row hrow)).2.1
    have hwindows : ∀ row ∈ rows, row.2 = tagged labelled row.1.1 row.1.2.toList := by
      cases labelled with
      | true => exact eq_tagged_of_labelled hbehind hstrip
      | false => exact eq_tagged_of_plain hbehind hstrip
    have hself : strip path.toList = path.toList := by
      rw [hpath, hstrip]
      exact congrArg _ (List.map_congr_left hwindows)
    obtain ⟨hhead, hlast⟩ := strip_eq_self_iff.mp hself
    refine ⟨fun row hrow => ?_, hhead, hlast, fun hentries hempty => ?_⟩
    · have hrowFills := hfills row hrow
      rw [hwindows row hrow] at hrowFills
      exact intact_of_fills (hvalue row hrow) (hcolumns row hrow) hrowFills
    · refine hne (fun hrows => hentries (by rw [hrows]; rfl)) ?_
      rw [hself, hempty]
      rfl
  · rintro ⟨hintact, hhead, hlast, hne⟩
    have hself : strip path.toList = path.toList := strip_eq_self hhead hlast
    refine parse_of_fills (hself.trans hpath) (fun hentries => ?_) fun entry hentry =>
      (hintact entry hentry).fills (hvalue entry hentry) (hcolumns entry hentry)
    rw [hself, ne_eq, String.toList_eq_nil_iff]
    exact hne hentries

/-- **A path of strings is read back exactly if its strings are told from each other**: for every
list of string columns under the value transform and every list of strings. Each string is intact,
and the path is neither stripped nor empty. -/
theorem parse_path_of_strings_iff {specs : List PartitionSpec} {strings : List String}
    (hvalue : ∀ spec ∈ specs, spec.transform = .value)
    (hcolumns : ∀ spec ∈ specs, columnType spec schema = .ok .string)
    (hlength : strings.length = specs.length) :
    ∃ path, render (strings.map .string) specs schema labelled = .ok path ∧
      (parse path specs schema = .ok ((specs.zip strings).map stringAt) ↔
        (∀ entry ∈ specs.zip strings, Intact labelled entry.1 entry.2) ∧
        path.toList.head? ≠ some '/' ∧ path.toList.getLast? ≠ some '/' ∧
        (specs ≠ [] → path ≠ "")) := by
  have hfst : (specs.zip strings).map (·.1) = specs :=
    List.map_fst_zip (Nat.le_of_eq hlength.symm)
  have hspec : ∀ entry ∈ specs.zip strings, entry.1 ∈ specs :=
    fun entry hentry => (List.of_mem_zip hentry).1
  have htexts : (specs.zip (strings.map Value.string)).mapM
      (fun entry => renderValue schema labelled entry.1 entry.2) =
        .ok ((specs.zip strings).map (stringText labelled)) := by
    rw [List.zip_map_right, List.mapM_map]
    exact mapM_eq_ok_map fun entry hentry =>
      renderValue_string (hvalue _ (hspec entry hentry)) (hcolumns _ (hspec entry hentry))
  have hpath : (String.intercalate "/" ((specs.zip strings).map (stringText labelled))).toList =
      ['/'].intercalate ((specs.zip strings).map fun entry =>
        tagged labelled entry.1 entry.2.toList) := by
    rw [toList_path]
    exact congrArg _ (List.map_congr_left fun entry _ => String.toList_ofList)
  have hparse := parse_tagged_iff (fun entry he => hvalue entry.1 (hspec entry he))
    (fun entry he => hcolumns entry.1 (hspec entry he)) hpath
  have hempty : specs.zip strings ≠ [] ↔ specs ≠ [] := by
    rw [ne_eq, ne_eq, ← List.map_eq_nil_iff, hfst]
  rw [hfst, hempty] at hparse
  exact ⟨_, render_of_texts (by rw [List.length_map, hlength]) htexts, hparse⟩

/-- A table with two columns of strings. -/
def places : Schema :=
  let column (name : String) : Field :=
    ⟨name, none, name, .string, none, false, [], none, none, none, none, none⟩
  ⟨"places", .record, none, false, [column "region", column "city"], none, none, none, none, none⟩

/-- Blanks, equals signs and the labels of other columns do no harm. -/
theorem parse_path_of_strings_iff_other_label :
    let specs : List PartitionSpec := [⟨"region", .value, none⟩, ⟨"city", .value, none⟩]
    let strings : List String := ["city=Bergen", " "]
    ∃ path, render (strings.map .string) specs places false = .ok path ∧
      (parse path specs places = .ok ((specs.zip strings).map stringAt) ↔
        (∀ entry ∈ specs.zip strings, Intact false entry.1 entry.2) ∧
        path.toList.head? ≠ some '/' ∧ path.toList.getLast? ≠ some '/' ∧
        (specs ≠ [] → path ≠ "")) := by
  intro specs strings
  have hregion : columnType ⟨"region", .value, none⟩ places = .ok .string := by decide +kernel
  have hcity : columnType ⟨"city", .value, none⟩ places = .ok .string := by decide +kernel
  refine parse_path_of_strings_iff (fun spec hspec => ?_) (fun spec hspec => ?_) rfl
  · rcases List.mem_pair.mp hspec with rfl | rfl <;> rfl
  · rcases List.mem_pair.mp hspec with rfl | rfl
    · exact hregion
    · exact hcity

/-- An empty string is stripped off the front, and the slash of the next one divides it: both
columns come back with strings that they never had. -/
theorem strings_are_misread :
    let specs : List PartitionSpec := [⟨"region", .value, none⟩, ⟨"city", .value, none⟩]
    let strings : List String := ["", "Oslo/Bergen"]
    render (strings.map .string) specs places false = .ok "/Oslo/Bergen" ∧
      parse "/Oslo/Bergen" specs places = .ok ((specs.zip ["Oslo", "Bergen"]).map stringAt) ∧
      parse "/Oslo/Bergen" specs places ≠ .ok ((specs.zip strings).map stringAt) := by
  exact ⟨by decide +kernel, by decide +kernel, by decide +kernel⟩

end Lakehouse.PartitionPath
