import Lakehouse.Proofs.Partition.Legible
import Lakehouse.Proofs.Partition.Window

/-!
# Absent values in a path

An absent value is written as a marker, which is one segment of the path. The reader takes as many
segments for it as the pattern of its column has. So a path with absent values is read back exactly
if each marker has as many slashes as the pattern that it stands for, and the path does not start
with one.

* `PartitionPath.ReadsAlone`: a value that comes back from a path of its own.
* `PartitionPath.Written`: what is known of the text of a value in a path.
* `PartitionPath.parse_path_with_absent_iff`: when a path with absent values is read back.

About `partition_path` and `parse_partition_path`, which are modelled in `Partition.Path`.
-/

namespace Lakehouse.PartitionPath

variable {schema : Schema} {labelled : Bool} {spec : PartitionSpec} {v : Value}

/-! ## Values and markers -/

/-- A value comes back from a path of its own. -/
def ReadsAlone (schema : Schema) (labelled : Bool) (spec : PartitionSpec) (v : Value) : Prop :=
  ∃ path value, render [v] [spec] schema labelled = .ok path ∧
    kept schema (spec, v) = .ok value ∧ parse path [spec] schema = .ok [value]

/-- The text of an absent value in a path. -/
def marker (labelled : Bool) (spec : PartitionSpec) : List Char :=
  tagged labelled spec absent.toList

/-- What is expected back of a value: nothing of an absent one, of any other what is kept. -/
def returned (schema : Schema) (entry : PartitionSpec × Value) : Except Fault PartitionValue :=
  if entry.2.isNull then .ok ⟨entry.1.field, .null⟩ else kept schema entry

/-- What is kept of a value that is present is present; under the value transform it is the value
itself. -/
theorem kept_eq_ok {value : PartitionValue} (h : kept schema (spec, v) = .ok value)
    (hpresent : v.isNull = false) :
    ∃ w, value = ⟨spec.field, w⟩ ∧ w.isNull = false ∧
      (spec.transform.isTimeBased = false → w = v) := by
  obtain ⟨type, -, h⟩ := bind_eq_ok.mp h
  by_cases htime : spec.transform.isTimeBased = true
  · simp only [if_pos htime] at h
    obtain ⟨w, hw, h⟩ := bind_eq_ok.mp h
    cases h
    obtain ⟨millis, -, hw⟩ := bind_eq_ok.mp hw
    obtain ⟨begin, -, hw⟩ := bind_eq_ok.mp hw
    exact ⟨w, rfl, Bucket.isNull_of_canonical hw, fun hvalue => absurd htime (by simp [hvalue])⟩
  · simp only [if_neg htime] at h
    cases h
    exact ⟨v, rfl, hpresent, fun _ => rfl⟩

/-- A window that is parsed as what is kept of a value is divided like the text of the value. -/
theorem Fills.count_behind {type : DataType} {window : List Char} {plain : String} {w : Value}
    {d : Char} (h : Fills schema spec window ⟨spec.field, w⟩)
    (hd : isLegible d = false) (htype : columnType spec schema = .ok type)
    (hpattern : spec.transform.isTimeBased = false → spec.pattern = "")
    (hwrite : TableFormat.hudi.partitionToNative v type spec.transform spec.pattern =
      .ok (some plain))
    (hpresent : w.isNull = false) (hvalue : spec.transform.isTimeBased = false → w = v) :
    (behind spec window).toList.count d = plain.toList.count d := by
  obtain ⟨type', htype', hparse⟩ := h.parsed
  cases htype.symm.trans htype'
  rcases parseValue_eq_ok_iff.mp (hparse "") with ⟨-, hnull⟩ | ⟨-, w', hread, hw⟩
  · cases hnull
    cases hpresent
  · cases hw
    exact TableFormat.count_eq_of_fromNative hd hpattern hwrite hread hvalue

/-- A window that is parsed as an absent value is a marker, with a label or without one. -/
theorem Fills.eq_marker {window : List Char} (h : Fills schema spec window ⟨spec.field, .null⟩) :
    ∃ any, window = marker any spec := by
  obtain ⟨type, -, hparse⟩ := h.parsed
  obtain ⟨any, hwindow, -⟩ := exists_tagged spec window
  rcases parseValue_eq_ok_iff.mp (hparse "") with ⟨habsent, -⟩ | ⟨-, w, hread, hw⟩
  · exact ⟨any, by rw [hwindow, habsent]; rfl⟩
  · cases hw
    exact absurd (TableFormat.isNull_of_fromNative hread) (by simp [Value.isNull])

/-- **A marker is parsed as an absent value when it has the slashes of the pattern.** -/
theorem fills_marker {type : DataType} (htype : columnType spec schema = .ok type)
    (hslashes : (marker labelled spec).count '/' = spec.pattern.toList.count '/') :
    Fills schema spec (marker labelled spec) ⟨spec.field, .null⟩ := by
  refine ⟨by rw [hslashes]; rfl, type, htype, fun path => ?_⟩
  have hplain : labelled = false → ¬(label spec).toList <+: absent.toList := by
    rintro - hstarts
    have hmem : '=' ∈ absent.toList := hstarts.subset (by simp [label])
    exact absurd hmem (by decide)
  refine parseValue_eq_ok_iff.mpr (.inl ⟨?_, rfl⟩)
  rw [marker, behind_tagged hplain, String.ofList_toList]

/-! ## Texts of entries -/

/-- What is written for a value that is present. -/
theorem exists_native {type : DataType} {text : String} (hpresent : v.isNull = false)
    (htype : columnType spec schema = .ok type)
    (h : renderValue schema labelled spec v = .ok text) :
    ∃ plain : String, TableFormat.hudi.partitionToNative v type spec.transform spec.pattern =
        .ok (some plain) ∧ text.toList = tagged labelled spec plain.toList := by
  obtain ⟨native, hnative, htoList⟩ := renderValue_eq_ok htype h
  have hwritten := hnative
  unfold TableFormat.partitionToNative at hwritten
  rw [if_neg (by simp [hpresent])] at hwritten
  split at hwritten
  · obtain ⟨plain, -, hsome⟩ := bind_eq_ok.mp hwritten
    cases hsome
    exact ⟨plain, hnative, htoList plain rfl⟩
  · obtain ⟨plain, -, hsome⟩ := bind_eq_ok.mp hwritten
    cases hsome
    exact ⟨plain, hnative, htoList plain rfl⟩

theorem render_singleton {path : String} (h : render [v] [spec] schema labelled = .ok path) :
    renderValue schema labelled spec v = .ok path := by
  obtain ⟨texts, htexts, hpath⟩ := bind_eq_ok.mp h
  obtain ⟨text, rest, htext, hrest, rfl⟩ := mapM_eq_ok_cons.mp htexts
  obtain rfl := Except.ok.inj hrest
  cases hpath
  rw [List.reverse_nil, String.intercalate_singleton]
  exact htext

/-- What is known of the text of an entry in a path. -/
structure Written (schema : Schema) (labelled : Bool) (entry : PartitionSpec × Value)
    (text : String) (value : PartitionValue) : Prop where
  rendered : renderValue schema labelled entry.1 entry.2 = .ok text
  returned : returned schema entry = .ok value
  isNull : value.value.isNull = entry.2.isNull
  nonempty : text.toList ≠ []
  last : text.toList.getLast? ≠ some '/'
  /-- A window of the entry has no equals sign that the text, behind its label, does not have. -/
  equals : labelled = true →
    ∀ window, Fills schema entry.1 window value → window.count '=' ≤ text.toList.count '='
  /-- An absent value is its marker. -/
  absent : entry.2.isNull = true → text.toList = marker labelled entry.1 ∧
    value = ⟨entry.1.field, .null⟩
  /-- Any other value fills its segments. -/
  present : entry.2.isNull = false → Stands schema entry.1 text.toList value

theorem written_of_isNull {type : DataType} (htype : columnType spec schema = .ok type)
    (hnull : v.isNull = true) :
    Written schema labelled (spec, v) (String.ofList (marker labelled spec))
      ⟨spec.field, .null⟩ := by
  have hlast : (marker labelled spec).getLast? = some '_' := by
    have habsent : absent.toList.getLast? = some '_' := by decide
    unfold marker tagged
    cases labelled with
    | true =>
      rw [if_pos rfl, List.getLast?_append, habsent]
      rfl
    | false => exact habsent
  have hne : marker labelled spec ≠ [] := fun hnil => by
    rw [hnil] at hlast
    cases hlast
  refine ⟨?_, ?_, hnull.symm, ?_, ?_, fun hlabelled window hfills => ?_, fun _ => ⟨?_, rfl⟩,
    fun hpresent => ?_⟩
  · have hnative : TableFormat.hudi.partitionToNative v type spec.transform spec.pattern =
        .ok none := by
      unfold TableFormat.partitionToNative
      rw [if_pos hnull]
    exact renderValue_eq htype hnative rfl
  · exact if_pos hnull
  · rwa [String.toList_ofList]
  · rw [String.toList_ofList, hlast]
    decide
  · obtain ⟨any, rfl⟩ := hfills.eq_marker
    rw [String.toList_ofList, hlabelled]
    exact count_tagged_le '=' any spec absent.toList
  · exact String.toList_ofList
  · simp only at hpresent
    rw [hnull] at hpresent
    cases hpresent

/-- **A value that comes back from a path of its own stands in every path**, and no window that is
parsed as it has more equals signs than its text. -/
theorem ReadsAlone.written (h : ReadsAlone schema labelled spec v) (hpresent : v.isNull = false)
    (hpattern : spec.transform.isTimeBased = false → spec.pattern = "") :
    ∃ text value, Written schema labelled (spec, v) text value := by
  obtain ⟨text, value, hrender, hkept, hparse⟩ := h
  obtain ⟨w, rfl, hw, hvalue⟩ := kept_eq_ok hkept hpresent
  obtain ⟨hne, hfills⟩ := parse_singleton_iff.mp hparse
  obtain ⟨type, htype, -⟩ := hfills.parsed
  have hrendered := render_singleton hrender
  obtain ⟨plain, hplain, htext⟩ := exists_native hpresent htype hrendered
  have hbehind : ∀ {window : List Char} {d : Char}, Fills schema spec window ⟨spec.field, w⟩ →
      isLegible d = false → (behind spec window).toList.count d = plain.toList.count d :=
    fun hwindow hd => hwindow.count_behind hd htype hpattern hplain hw hvalue
  -- The stripped path has the equals signs of the path, so it is labelled like it, so it has its
  -- slashes too, and nothing was stripped.
  obtain ⟨any, hstrip, -⟩ := exists_tagged spec (strip text.toList)
  have hcount : ∀ d : Char, isLegible d = false → (strip text.toList).count d =
      (tagged any spec plain.toList).count d := fun d hd => by
    rw [congrArg (List.count d) hstrip, count_tagged, count_tagged, hbehind hfills hd]
  have hlabelled : any = labelled := by
    refine @labelled_eq_of_count any labelled spec plain.toList ?_
    rw [← hcount '=' rfl, ← htext]
    exact count_strip (by decide) _
  have hself : strip text.toList = text.toList := by
    refine strip_eq_self_of_count (Nat.le_of_eq ?_)
    rw [hcount '/' rfl, hlabelled, ← htext]
  rw [hself] at hne hfills
  obtain ⟨hhead, hlast⟩ := strip_eq_self_iff.mp hself
  refine ⟨text, _, hrendered, ?_, by rw [hw, hpresent], hne, hlast,
    fun htrue window hwindow => ?_, fun hnull => ?_,
    fun _ => ⟨hne, hhead, hlast, hfills.slashes, hfills.parsed⟩⟩
  · unfold returned
    rwa [if_neg (by simp [hpresent])]
  · obtain ⟨any, hany, -⟩ := exists_tagged spec window
    rw [hany, htext, htrue, count_tagged, hbehind hwindow rfl, ← count_tagged]
    exact count_tagged_le '=' any spec plain.toList
  · simp only at hnull
    rw [hpresent] at hnull
    cases hnull

/-! ## Paths -/

section Rows

variable {text : PartitionSpec × Value → String} {value : PartitionSpec × Value → PartitionValue}
  {rows : List ((PartitionSpec × Value) × List Char)}

/-- With labels the windows have the equals signs of the texts, so each marker is found again. -/
theorem count_slash_of_labelled
    (hwritten : ∀ row ∈ rows, Written schema true row.1 (text row.1) (value row.1))
    (hfills : ∀ row ∈ rows, Fills schema row.1.1 row.2 (value row.1))
    (hstrip : strip (['/'].intercalate (rows.map fun row => (text row.1).toList)) =
      ['/'].intercalate (rows.map (·.2))) :
    ∀ row ∈ rows, row.2.count '/' = (text row.1).toList.count '/' := by
  have hequals : ∀ row ∈ rows, row.2.count '=' = (text row.1).toList.count '=' := by
    refine Text.measure_eq_of_intercalate_le '/' (fun a b => List.count_append)
      (fun row hrow => (hwritten row hrow).equals rfl _ (hfills row hrow)) ?_
    rw [← hstrip, count_strip (by decide)]
  intro row hrow
  have hrowWritten := hwritten row hrow
  cases hnull : row.1.2.isNull with
  | true =>
    obtain ⟨hmarker, hvalue⟩ := hrowWritten.absent hnull
    have hrowFills := hfills row hrow
    rw [hvalue] at hrowFills
    obtain ⟨any, hany⟩ := hrowFills.eq_marker
    have hlabel : any = true := by
      refine @labelled_eq_of_count any true row.1.1 absent.toList ?_
      have hcount := hequals row hrow
      rwa [hany, hmarker] at hcount
    rw [hany, hmarker, hlabel]
  | false =>
    have hwindow := (hfills row hrow).slashes
    have htext := (hrowWritten.present hnull).slashes
    omega

/-- Without labels a marker has no slash, so no window can have more slashes than its text. -/
theorem count_slash_of_plain
    (hwritten : ∀ row ∈ rows, Written schema false row.1 (text row.1) (value row.1))
    (hfills : ∀ row ∈ rows, Fills schema row.1.1 row.2 (value row.1))
    (hstrip : strip (['/'].intercalate (rows.map fun row => (text row.1).toList)) =
      ['/'].intercalate (rows.map (·.2))) :
    ∀ row ∈ rows, row.2.count '/' = (text row.1).toList.count '/' := by
  have hslashes : ∀ row ∈ rows, (text row.1).toList.count '/' = row.2.count '/' := by
    refine Text.measure_eq_of_intercalate_le '/' (fun a b => List.count_append)
      (fun row hrow => ?_) ?_
    · cases hnull : row.1.2.isNull with
      | true =>
        have hnone : (marker false row.1.1).count '/' = 0 := by
          show absent.toList.count '/' = 0
          decide
        rw [((hwritten row hrow).absent hnull).1, hnone]
        exact Nat.zero_le _
      | false =>
        have hwindow := (hfills row hrow).slashes
        have htext := ((hwritten row hrow).present hnull).slashes
        omega
    · rw [← hstrip]
      exact count_strip_le '/' _
  exact fun row hrow => (hslashes row hrow).symm

end Rows

/-- A path of written texts is parsed as what is expected back exactly if its markers have the
slashes of their patterns, and it does not start with one. -/
theorem parse_written_iff {entries : List (PartitionSpec × Value)}
    {text : PartitionSpec × Value → String} {value : PartitionSpec × Value → PartitionValue}
    (hcolumns : ∀ entry ∈ entries, ∃ type, columnType entry.1 schema = .ok type)
    (hwritten : ∀ entry ∈ entries, Written schema labelled entry (text entry) (value entry)) :
    parse (String.intercalate "/" (entries.map text)) (entries.map (·.1)) schema =
        .ok (entries.map value) ↔
      (∀ entry ∈ entries, entry.2.isNull = true →
        (marker labelled entry.1).count '/' = entry.1.pattern.toList.count '/') ∧
      (String.intercalate "/" (entries.map text)).toList.head? ≠ some '/' := by
  constructor
  · intro h
    obtain ⟨rows, rfl, hstrip, -, hfills⟩ := parse_eq_ok_iff.mp h
    rw [toList_path, List.map_map] at hstrip ⊢
    have hrows : ∀ row ∈ rows, Written schema labelled row.1 (text row.1) (value row.1) :=
      fun row hrow => hwritten row.1 (List.mem_map_of_mem hrow)
    have hslashes : ∀ row ∈ rows, row.2.count '/' = (text row.1).toList.count '/' := by
      cases labelled with
      | true => exact count_slash_of_labelled hrows hfills hstrip
      | false => exact count_slash_of_plain hrows hfills hstrip
    constructor
    · intro entry hentry hnull
      obtain ⟨row, hrow, rfl⟩ := List.mem_map.mp hentry
      rw [← ((hrows row hrow).absent hnull).1, ← hslashes row hrow]
      exact Nat.succ.inj (hfills row hrow).slashes
    · have hcount := Text.measure_intercalate_congr '/'
        (fun a b => List.count_append) hslashes
      have hself := strip_eq_self_of_count (Nat.le_of_eq (hcount.symm.trans
        (congrArg (List.count '/') hstrip).symm))
      exact (strip_eq_self_iff.mp hself).1
  · rintro ⟨hmarkers, hhead⟩
    have hfills : ∀ entry ∈ entries, Fills schema entry.1 (text entry).toList (value entry) := by
      intro entry hentry
      cases hnull : entry.2.isNull with
      | true =>
        obtain ⟨htext, hvalue⟩ := (hwritten entry hentry).absent hnull
        obtain ⟨type, htype⟩ := hcolumns entry hentry
        rw [htext, hvalue]
        exact fills_marker htype (hmarkers entry hentry hnull)
      | false => exact ((hwritten entry hentry).present hnull).fills
    have hparts : ∀ part ∈ entries.map fun entry => (text entry).toList,
        part ≠ [] ∧ part.getLast? ≠ some '/' := by
      intro part hpart
      obtain ⟨entry, hentry, rfl⟩ := List.mem_map.mp hpart
      exact ⟨(hwritten entry hentry).nonempty, (hwritten entry hentry).last⟩
    rw [toList_path] at hhead
    have hself := strip_eq_self hhead fun hlast => by
      obtain ⟨part, hpart, hend⟩ :=
        Text.getLast?_intercalate (fun part hpart => (hparts part hpart).1) hlast
      exact (hparts part hpart).2 hend
    refine parse_of_fills (by rw [toList_path, hself]) (fun hne => ?_) hfills
    rw [toList_path, hself]
    cases entries with
    | nil => exact absurd rfl hne
    | cons entry rest =>
      exact Text.intercalate_ne_nil _ (hwritten entry List.mem_cons_self).nonempty

/-- **A path with absent values is read back exactly if each marker has the slashes of its
pattern**, and the path does not start with one: for every list of columns and every list of values
of which the present ones come back alone. What comes back is absent where the value was. -/
theorem parse_path_with_absent_iff {text : String} {specs : List PartitionSpec}
    {values : List Value} (hspecs : PartitionSpec.parseList text = .ok specs)
    (hcolumns : ∀ spec ∈ specs, ∃ type, columnType spec schema = .ok type)
    (hlength : values.length = specs.length)
    (hvalues : ∀ entry ∈ specs.zip values, entry.2.isNull = false →
      ReadsAlone schema labelled entry.1 entry.2) :
    ∃ path read, render values specs schema labelled = .ok path ∧
      (specs.zip values).mapM (returned schema) = .ok read ∧
      read.map (·.value.isNull) = values.map Value.isNull ∧
      (parse path specs schema = .ok read ↔
        (∀ entry ∈ specs.zip values, entry.2.isNull = true →
          (marker labelled entry.1).count '/' = entry.1.pattern.toList.count '/') ∧
        path.toList.head? ≠ some '/') := by
  have hentries : ∀ entry ∈ specs.zip values,
      ∃ text value, Written schema labelled entry text value := by
    rintro ⟨spec, v⟩ hentry
    have hspec := (List.of_mem_zip hentry).1
    cases hnull : v.isNull with
    | true =>
      obtain ⟨type, htype⟩ := hcolumns spec hspec
      exact ⟨_, _, written_of_isNull htype hnull⟩
    | false =>
      exact (hvalues _ hentry hnull).written hnull (pattern_of_parseList hspecs spec hspec)
  have : Nonempty PartitionValue := ⟨⟨⟨"", .value⟩, .null⟩⟩
  choose! text value hwritten using hentries
  have hfst : (specs.zip values).map (·.1) = specs :=
    List.map_fst_zip (Nat.le_of_eq hlength.symm)
  have hsnd : (specs.zip values).map (·.2) = values :=
    List.map_snd_zip (Nat.le_of_eq hlength)
  have htexts : (specs.zip values).mapM
      (fun entry => renderValue schema labelled entry.1 entry.2) =
        .ok ((specs.zip values).map text) :=
    mapM_eq_ok_map fun entry he => (hwritten entry he).rendered
  have hparse := parse_written_iff
    (fun entry he => hcolumns entry.1 (List.of_mem_zip he).1) hwritten
  rw [hfst] at hparse
  refine ⟨String.intercalate "/" ((specs.zip values).map text), (specs.zip values).map value,
    render_of_texts hlength htexts,
    mapM_eq_ok_map fun entry he => (hwritten entry he).returned, ?_, hparse⟩
  rw [← congrArg (List.map Value.isNull) hsnd, List.map_map, List.map_map]
  exact List.map_congr_left fun entry he => (hwritten entry he).isNull

theorem readsAlone_number : ReadsAlone trips false ⟨"id", .value, none⟩ (.int 7) :=
  ⟨"7", ⟨⟨"id", .value⟩, .int 7⟩, by decide +kernel, by decide +kernel, by decide +kernel⟩

/-- A day in one segment may be unknown. -/
theorem parse_path_with_absent_iff_unknown_day :
    let specs : List PartitionSpec := [⟨"at", .day, some "yyyy-MM-dd"⟩, ⟨"id", .value, none⟩]
    let values : List Value := [.null, .int 7]
    PartitionSpec.parseList "at:DAY:yyyy-MM-dd, id:VALUE" = .ok specs ∧
      ∃ path read, render values specs trips false = .ok path ∧
        (specs.zip values).mapM (returned trips) = .ok read ∧
        read.map (·.value.isNull) = values.map Value.isNull ∧
        (parse path specs trips = .ok read ↔
          (∀ entry ∈ specs.zip values, entry.2.isNull = true →
            (marker false entry.1).count '/' = entry.1.pattern.toList.count '/') ∧
          path.toList.head? ≠ some '/') := by
  intro specs values
  have hspecs : PartitionSpec.parseList "at:DAY:yyyy-MM-dd, id:VALUE" = .ok specs := by
    decide +kernel
  have hat : columnType ⟨"at", .day, some "yyyy-MM-dd"⟩ trips = .ok .timestamp := by decide +kernel
  have hid : columnType ⟨"id", .value, none⟩ trips = .ok .int := by decide +kernel
  refine ⟨hspecs, parse_path_with_absent_iff hspecs ?_ rfl ?_⟩
  · intro spec hspec
    rcases List.mem_pair.mp hspec with rfl | rfl
    · exact ⟨_, hat⟩
    · exact ⟨_, hid⟩
  · intro entry hentry hpresent
    rcases List.mem_pair.mp hentry with rfl | rfl
    · cases hpresent
    · exact readsAlone_number

/-- A day in three segments may not: its marker is one segment, and the reader runs out of them. -/
theorem unknown_day_is_misread :
    let specs : List PartitionSpec := [⟨"at", .day, some "yyyy/MM/dd"⟩, ⟨"id", .value, none⟩]
    let path := "__HIVE_DEFAULT_PARTITION__/7"
    PartitionSpec.parseList "at:DAY:yyyy/MM/dd, id:VALUE" = .ok specs ∧
      ReadsAlone trips false ⟨"id", .value, none⟩ (.int 7) ∧
      render [.null, .int 7] specs trips false = .ok path ∧
      parse path specs trips = .error (Problem.tooFewSegments path 2).fault := by
  exact ⟨by decide +kernel, readsAlone_number, by decide +kernel, by decide +kernel⟩

end Lakehouse.PartitionPath
