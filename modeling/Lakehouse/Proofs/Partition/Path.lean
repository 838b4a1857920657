import Lakehouse.Partition.Path
import Lakehouse.Proofs.Partition.Bucket
import Lakehouse.Proofs.Partition.Identity
import Lakehouse.Proofs.Text.Cut

/-!
# Partition paths survive

The path of a list of values is parsed as the values, each under a time transform as the start of
its bucket. Texts of patterns with slashes span several segments, and are put together again from as
many as the pattern has.

* `PartitionPath.Travels`: the columns and values that survive a path.
* `PartitionPath.kept`: what comes back of a value.
* `PartitionPath.Stands`: a text that fills its segments, and is parsed as a value.
* `PartitionPath.parse_rendered_path`: what was rendered is parsed as what is kept of it.

About `partition_path` and `parse_partition_path`, which are modelled in `Partition.Path`.
-/

namespace Lakehouse.PartitionPath

/-! ## What survives -/

/-- A value of a partition column survives a path: under the value transform a typed value; under a
time transform a point in time, when the pattern spells its bucket, and its text neither looks
like a label nor touches the separators of the path. -/
inductive Travels (schema : Schema) (spec : PartitionSpec) (v : Value) : Prop where
  | value {type : DataType} : columnType spec schema = .ok type → spec.transform = .value →
      type.isTyped = true → Canonical type v → v.isNull = false → Travels schema spec v
  | bucket {type : DataType} : columnType spec schema = .ok type →
      spec.transform.isTimeBased = true → type.isTemporal = true → Canonical type v →
      v.isNull = false → '=' ∉ spec.pattern.toList →
      (∀ p, DatePattern.compile spec.pattern = .ok p → Bucket.Names spec.transform p) →
      (∀ millis begin c, Bucket.instant v type = .ok millis →
        Bucket.start spec.transform millis = .ok begin →
        DateTime.ofMillis? begin.toInt = some c → 0 ≤ c.date.year ∧ c.date.year ≤ 9999) →
      (∀ text, Bucket.render v type spec.transform spec.pattern = .ok text →
        text.toList.head? ≠ some '/' ∧ text.toList.getLast? ≠ some '/') →
      Travels schema spec v

/-- What comes back of a value: under the value transform the value itself, under a time transform
the start of its bucket. -/
def kept (schema : Schema) (entry : PartitionSpec × Value) : Except Fault PartitionValue := do
  let type ← columnType entry.1 schema
  let value ← if entry.1.transform.isTimeBased then Bucket.valueOf entry.2 type entry.1.transform
    else .ok entry.2
  return ⟨entry.1.field, value⟩

/-! ## Texts in a path -/

/-- A text can stand in a path for an entry, without a label: it fills as many segments as the
entry takes, and it is neither a marker nor labelled. -/
structure Plain (spec : PartitionSpec) (text : List Char) : Prop where
  nonempty : text ≠ []
  head : text.head? ≠ some '/'
  last : text.getLast? ≠ some '/'
  slashes : text.count '/' + 1 = width spec
  equals : '=' ∉ text
  present : String.ofList text ≠ absent

/-- A text stands in a path for an entry, and is parsed as a value. -/
structure Stands (schema : Schema) (spec : PartitionSpec) (text : List Char)
    (value : PartitionValue) : Prop where
  nonempty : text ≠ []
  head : text.head? ≠ some '/'
  last : text.getLast? ≠ some '/'
  slashes : text.count '/' + 1 = width spec
  parsed : ∃ type, columnType spec schema = .ok type ∧
    ∀ path, parseValue path spec type text = .ok value

/-- A window of a path for an entry: it takes as many segments as the entry does, and is parsed as a
value. -/
structure Fills (schema : Schema) (spec : PartitionSpec) (window : List Char)
    (value : PartitionValue) : Prop where
  slashes : window.count '/' + 1 = width spec
  parsed : ∃ type, columnType spec schema = .ok type ∧
    ∀ path, parseValue path spec type window = .ok value

theorem Stands.fills {schema : Schema} {spec : PartitionSpec} {text : List Char}
    {value : PartitionValue} (h : Stands schema spec text value) : Fills schema spec text value :=
  ⟨h.slashes, h.parsed⟩

theorem stripStart?_append (start cs : List Char) :
    Text.stripStart? start (start ++ cs) = some cs := by
  unfold Text.stripStart?
  rw [if_pos (List.isPrefixOf_iff_prefix.mpr (List.prefix_append start cs)), List.drop_left]

/-- A text without an equals sign carries no label. -/
theorem stripStart?_label {spec : PartitionSpec} {cs : List Char} (h : '=' ∉ cs) :
    Text.stripStart? (label spec).toList cs = none := by
  unfold Text.stripStart?
  refine if_neg fun hprefix => h ?_
  have hlabel : '=' ∈ (label spec).toList := by simp [label]
  exact (List.isPrefixOf_iff_prefix.mp hprefix).subset hlabel

/-- **A plain text is parsed as what it stands for**, with and without its label. -/
theorem Plain.stands {schema : Schema} {spec : PartitionSpec} {text : List Char}
    {type : DataType} {value : Value} (h : Plain spec text) (hsource : '/' ∉ spec.source.toList)
    (htype : columnType spec schema = .ok type)
    (hread : TableFormat.hudi.partitionFromNative (some (String.ofList text)) type spec.transform
      spec.pattern = .ok value) (labelled : Bool) :
    Stands schema spec (if labelled then (label spec).toList ++ text else text)
      ⟨spec.field, value⟩ := by
  have hlabel : '/' ∉ (label spec).toList := by simpa [label] using hsource
  cases labelled with
  | false =>
    refine ⟨h.nonempty, h.head, h.last, h.slashes, type, htype, fun path => ?_⟩
    unfold parseValue
    simp only [Bool.false_eq_true, if_false, stripStart?_label h.equals, Option.getD_none,
      h.present, hread]
  | true =>
    simp only [if_true]
    refine ⟨List.append_ne_nil_of_right_ne_nil _ h.nonempty, ?_, ?_, ?_, type, htype,
      fun path => ?_⟩
    · have hne : (label spec).toList ≠ [] := by simp [label]
      rw [List.head?_append_of_ne_nil _ hne]
      exact fun hhead => hlabel (List.mem_of_mem_head? hhead)
    · rw [List.getLast?_append, Option.or_of_isSome (List.getLast?_isSome.mpr h.nonempty)]
      exact h.last
    · rw [List.count_append, List.count_eq_zero.mpr hlabel, Nat.zero_add]
      exact h.slashes
    · unfold parseValue
      simp only [stripStart?_append, Option.getD_some, h.present, if_false, hread]

/-- A text of letters, digits, signs and points is plain, when its entry takes one segment. -/
theorem plain_of_isTextual {spec : PartitionSpec} {text : String} (hpattern : spec.pattern = "")
    (hne : text ≠ "") (htext : ∀ c ∈ text.toList, isTextual c = true) :
    Plain spec text.toList := by
  have hslash : '/' ∉ text.toList := fun h => absurd (htext _ h) (by decide)
  refine ⟨fun h => hne (String.toList_eq_nil_iff.mp h), fun h => hslash (List.mem_of_mem_head? h),
    fun h => hslash (List.mem_of_getLast? h), ?_, fun h => absurd (htext _ h) (by decide), ?_⟩
  · rw [List.count_eq_zero.mpr hslash]
    unfold width
    rw [hpattern]
    rfl
  · rw [String.ofList_toList]
    rintro rfl
    exact absurd (htext '_' (by decide)) (by decide)

/-- A rendered bucket is plain, when its pattern spells it. -/
theorem plain_of_render {spec : PartitionSpec} {v : Value} {type : DataType} {text : String}
    (h : Bucket.render v type spec.transform spec.pattern = .ok text)
    (hequals : '=' ∉ spec.pattern.toList)
    (hnames : ∀ p, DatePattern.compile spec.pattern = .ok p → Bucket.Names spec.transform p)
    (hends : text.toList.head? ≠ some '/' ∧ text.toList.getLast? ≠ some '/') :
    Plain spec text.toList := by
  obtain ⟨-, p, millis, begin, c, -, hcompile, -, -, -, rfl⟩ := Bucket.render_eq_ok h
  obtain ⟨hslashes, hlabel, d, hd, hdigit⟩ := (hnames p hcompile).write_spec hcompile c
  rw [String.toList_ofList] at hends ⊢
  refine ⟨List.ne_nil_of_mem hd, hends.1, hends.2, ?_, hlabel hequals, ?_⟩
  · rw [hslashes]
    rfl
  · intro habsent
    have hmem : d ∈ absent.toList := by
      rw [← habsent, String.toList_ofList]
      exact hd
    have hletters : absent.toList.any Char.isDigit = false := by decide
    exact List.any_eq_false.mp hletters d hmem hdigit

/-- What is written for a value that has a text. -/
theorem renderValue_eq_ok {schema : Schema} {spec : PartitionSpec} {v : Value} {type : DataType}
    {labelled : Bool} {text : String} (htype : columnType spec schema = .ok type)
    (h : renderValue schema labelled spec v = .ok text) :
    ∃ native, TableFormat.hudi.partitionToNative v type spec.transform spec.pattern = .ok native ∧
      ∀ plain : String, native = some plain →
        text.toList = if labelled then (label spec).toList ++ plain.toList else plain.toList := by
  obtain ⟨type', htype', h⟩ := bind_eq_ok.mp h
  cases htype'.symm.trans htype
  obtain ⟨native, hnative, h⟩ := bind_eq_ok.mp h
  refine ⟨native, hnative, ?_⟩
  rintro plain rfl
  cases h
  cases labelled with
  | false => rfl
  | true => exact String.toList_append

/-- **The text of a value that survives stands in the path**, and is parsed as what is kept of the
value. -/
theorem Travels.renderValue {schema : Schema} {spec : PartitionSpec} {v : Value}
    {labelled : Bool} {text : String} (h : Travels schema spec v)
    (hsource : '/' ∉ spec.source.toList)
    (hpattern : spec.transform.isTimeBased = false → spec.pattern = "")
    (hrender : renderValue schema labelled spec v = .ok text) :
    ∃ value, kept schema (spec, v) = .ok value ∧ Stands schema spec text.toList value := by
  cases h with
  | @value type htype htransform htyped hcanonical hpresent =>
    obtain ⟨native, hnative, htoList⟩ := renderValue_eq_ok htype hrender
    have htime : spec.transform.isTimeBased = false := by rw [htransform]; rfl
    unfold TableFormat.partitionToNative at hnative
    rw [if_neg (by simp [hpresent]), if_neg (by simp [htime]), hpattern htime] at hnative
    obtain ⟨plain, hwrite, hsome⟩ := bind_eq_ok.mp hnative
    cases hsome
    have hread := TableFormat.readIdentity_writeIdentity htyped hcanonical hpresent hwrite
    obtain ⟨hne, htext⟩ :=
      TableFormat.isTextual_of_mem_writeIdentity htyped hcanonical hpresent hwrite
    refine ⟨⟨spec.field, v⟩, ?_, ?_⟩
    · unfold kept
      simp only [htype, ok_bind, htime, Bool.false_eq_true, if_false]
      rfl
    · rw [htoList plain rfl]
      refine (plain_of_isTextual (hpattern htime) hne htext).stands hsource htype ?_ labelled
      unfold TableFormat.partitionFromNative
      simp only [htime, Bool.false_eq_true, if_false, String.ofList_toList, hpattern htime, hread]
  | @bucket type htype htime htemporal hcanonical hpresent hequals hnames hyear hends =>
    obtain ⟨native, hnative, htoList⟩ := renderValue_eq_ok htype hrender
    unfold TableFormat.partitionToNative at hnative
    rw [if_neg (by simp [hpresent]), if_pos htime] at hnative
    obtain ⟨plain, hwrite, hsome⟩ := bind_eq_ok.mp hnative
    cases hsome
    obtain ⟨value, hvalue, hparse⟩ := Bucket.parse_render htime hwrite hnames hyear
    refine ⟨⟨spec.field, value⟩, ?_, ?_⟩
    · unfold kept
      simp only [htype, ok_bind, htime, if_true, hvalue]
      rfl
    · rw [htoList plain rfl]
      refine (plain_of_render hwrite hequals hnames (hends plain hwrite)).stands hsource htype ?_
        labelled
      unfold TableFormat.partitionFromNative
      simp only [htime, if_true, String.ofList_toList]
      exact hparse

/-! ## Paths -/

/-- **Windows are parsed one after the other**, each from its segments. -/
theorem parseValues_fills {ρ : Type} {schema : Schema} {path : String} {fields : Nat}
    {rows : List ρ} {spec : ρ → PartitionSpec} {window : ρ → List Char}
    {value : ρ → PartitionValue}
    (h : ∀ row ∈ rows, Fills schema (spec row) (window row) (value row)) :
    parseValues path fields schema (rows.flatMap fun row => (window row).splitOn '/')
        (rows.map spec) = .ok (rows.map value, []) := by
  induction rows with
  | nil => rfl
  | cons row rest ih =>
    have hrow := h row List.mem_cons_self
    obtain ⟨type, htype, hparse⟩ := hrow.parsed
    have hwidth : ((window row).splitOn '/').length = width (spec row) :=
      (Text.length_splitOn (window row)).trans hrow.slashes
    simp only [List.flatMap_cons, List.map_cons, parseValues, htype, ok_bind]
    rw [if_neg (by rw [List.length_append, hwidth]; omega), List.take_left' hwidth,
      List.drop_left' hwidth, List.intercalate_splitOn, hparse, ok_bind,
      ih fun r hr => h r (List.mem_cons_of_mem _ hr)]
    rfl

/-- **Texts that stand in a path are parsed one after the other**, each from its segments. -/
theorem parseValues_stands {schema : Schema} {path : String} {fields : Nat}
    (pieces : List (PartitionSpec × List Char × PartitionValue))
    (h : ∀ piece ∈ pieces, Stands schema piece.1 piece.2.1 piece.2.2) :
    parseValues path fields schema (pieces.flatMap fun piece => piece.2.1.splitOn '/')
        (pieces.map (·.1)) = .ok (pieces.map (·.2.2), []) :=
  parseValues_fills fun piece hpiece => (h piece hpiece).fills

theorem dropWhile_slash {cs : List Char} (h : cs.head? ≠ some '/') :
    cs.dropWhile (· == '/') = cs := by
  cases cs with
  | nil => rfl
  | cons c cs =>
    refine List.dropWhile_cons_of_neg fun hc => h ?_
    rw [beq_iff_eq.mp hc]
    rfl

/-- A text that neither starts nor ends with a slash is not stripped. -/
theorem strip_eq_self {cs : List Char} (hhead : cs.head? ≠ some '/')
    (hlast : cs.getLast? ≠ some '/') : strip cs = cs := by
  unfold strip
  rw [dropWhile_slash hhead, dropWhile_slash (by rwa [List.head?_reverse]), List.reverse_reverse]

/-- **The segments of a path are those of its texts**, one after the other. -/
theorem segments_intercalate {texts : List String}
    (hne : ∀ text ∈ texts, text.toList ≠ [])
    (hhead : ∀ text ∈ texts, text.toList.head? ≠ some '/')
    (hlast : ∀ text ∈ texts, text.toList.getLast? ≠ some '/') :
    segments (String.intercalate "/" texts) = texts.flatMap (·.toList.splitOn '/') := by
  unfold segments
  rw [String.toList_intercalate]
  cases texts with
  | nil => rfl
  | cons text rest =>
    have hfirst : (['/'].intercalate (text.toList :: rest.map String.toList)).head? =
        text.toList.head? :=
      Text.head?_intercalate _ (hne text List.mem_cons_self)
    have hparts : ∀ part ∈ (text :: rest).map String.toList, part ≠ [] := fun part hpart => by
      obtain ⟨t, ht, rfl⟩ := List.mem_map.mp hpart
      exact hne t ht
    have hstrip : strip (['/'].intercalate ((text :: rest).map String.toList)) =
        ['/'].intercalate ((text :: rest).map String.toList) := by
      refine strip_eq_self ?_ fun hend => ?_
      · rw [List.map_cons, hfirst]
        exact hhead text List.mem_cons_self
      · obtain ⟨part, hpart, hpartEnd⟩ := Text.getLast?_intercalate hparts hend
        obtain ⟨t, ht, rfl⟩ := List.mem_map.mp hpart
        exact hlast t ht hpartEnd
    have hpath : ['/'].intercalate ((text :: rest).map String.toList) ≠ [] :=
      Text.intercalate_ne_nil _ (hne text List.mem_cons_self)
    rw [show "/".toList = ['/'] from rfl, hstrip]
    split
    · rename_i hempty
      exact absurd hempty hpath
    · rw [Text.splitOn_intercalate (by simp), List.flatMap_map]

/-- Each text of a path stands in it for its entry and is parsed as what is kept of its value. -/
theorem exists_pieces {schema : Schema} {labelled : Bool}
    {entries : List (PartitionSpec × Value)} {texts : List String}
    (h : ∀ entry ∈ entries, Travels schema entry.1 entry.2 ∧ '/' ∉ entry.1.source.toList ∧
      (entry.1.transform.isTimeBased = false → entry.1.pattern = ""))
    (hrender : entries.mapM (fun (spec, v) => renderValue schema labelled spec v) = .ok texts) :
    ∃ pieces : List (PartitionSpec × List Char × PartitionValue),
      pieces.map (·.1) = entries.map (·.1) ∧ pieces.map (·.2.1) = texts.map String.toList ∧
      entries.mapM (kept schema) = .ok (pieces.map (·.2.2)) ∧
      ∀ piece ∈ pieces, Stands schema piece.1 piece.2.1 piece.2.2 := by
  induction entries generalizing texts with
  | nil =>
    cases hrender
    exact ⟨[], rfl, rfl, rfl, by simp⟩
  | cons entry rest ih =>
    obtain ⟨text, texts', htext, htexts, rfl⟩ := mapM_eq_ok_cons.mp hrender
    obtain ⟨htravels, hsource, hpattern⟩ := h entry List.mem_cons_self
    obtain ⟨value, hvalue, hstands⟩ := htravels.renderValue hsource hpattern htext
    obtain ⟨pieces, hspecs, hchars, hkept, hpieces⟩ :=
      ih (fun e he => h e (List.mem_cons_of_mem _ he)) htexts
    refine ⟨(entry.1, text.toList, value) :: pieces, by simp [hspecs], by simp [hchars],
      mapM_eq_ok_cons.mpr ⟨value, _, hvalue, hkept, rfl⟩, ?_⟩
    exact List.forall_mem_cons.mpr ⟨hstands, hpieces⟩

/-! ## Partition specs -/

/-- A spec of the value transform has no pattern. -/
theorem pattern_of_parse {entry : String} {spec : PartitionSpec}
    (h : PartitionSpec.parse entry = .ok spec) (hvalue : spec.transform.isTimeBased = false) :
    spec.pattern = "" := by
  unfold PartitionSpec.parse at h
  simp only at h
  split at h
  · cases h
  · split at h
    · cases h
    · obtain ⟨transform, -, h⟩ := bind_eq_ok.mp h
      split at h
      · cases h
      · cases h
      · rename_i rest _ _ _ _ _ hformat
        cases h
        unfold PartitionSpec.pattern
        simp only at hvalue ⊢
        cases hcut : PartitionSpec.formatOf (Text.cut ':' rest).2 with
        | none => rfl
        | some pattern => exact absurd hcut (hformat pattern hvalue)

theorem pattern_of_parseList {text : String} {specs : List PartitionSpec}
    (h : PartitionSpec.parseList text = .ok specs) :
    ∀ spec ∈ specs, spec.transform.isTimeBased = false → spec.pattern = "" := by
  unfold PartitionSpec.parseList at h
  revert h
  generalize PartitionSpec.entries text = entries
  intro h
  induction entries generalizing specs with
  | nil =>
    cases h
    simp
  | cons entry rest ih =>
    obtain ⟨spec, specs', hspec, hspecs, rfl⟩ := mapM_eq_ok_cons.mp h
    exact List.forall_mem_cons.mpr ⟨pattern_of_parse hspec, ih hspecs⟩

/-! ## Round trip -/

/-- **What was rendered is parsed as what is kept of it**: for every list of partition columns and
every list of values that survive a path, with and without labels. -/
theorem parse_rendered_path {schema : Schema} {text : String} {specs : List PartitionSpec}
    {values : List Value} {labelled : Bool} {path : String}
    (hspecs : PartitionSpec.parseList text = .ok specs)
    (hsources : ∀ spec ∈ specs, '/' ∉ spec.source.toList)
    (hvalues : ∀ entry ∈ specs.zip values, Travels schema entry.1 entry.2)
    (h : render values specs schema labelled = .ok path) :
    ∃ read, (specs.zip values).mapM (kept schema) = .ok read ∧
      parse path specs schema = .ok read := by
  unfold render at h
  split at h
  · cases h
  · rename_i hlength
    have hlength := Decidable.not_not.mp hlength
    obtain ⟨texts, htexts, hpath⟩ := bind_eq_ok.mp h
    cases hpath
    obtain ⟨pieces, hpieceSpecs, hpieceTexts, hkept, hstands⟩ := exists_pieces
      (fun entry hentry => ⟨hvalues entry hentry,
        hsources _ (List.of_mem_zip hentry).1,
        pattern_of_parseList hspecs _ (List.of_mem_zip hentry).1⟩) htexts
    rw [List.map_fst_zip (Nat.le_of_eq hlength.symm)] at hpieceSpecs
    have hpiece : ∀ t ∈ texts, ∃ piece ∈ pieces, piece.2.1 = t.toList := fun t ht => by
      have hmem : t.toList ∈ pieces.map (·.2.1) := hpieceTexts ▸ List.mem_map_of_mem ht
      exact List.mem_map.mp hmem
    have hsegments : segments (String.intercalate "/" texts) =
        pieces.flatMap fun piece => piece.2.1.splitOn '/' := by
      rw [segments_intercalate]
      · rw [← List.flatMap_map (f := String.toList) (g := (·.splitOn '/')), ← hpieceTexts,
          List.flatMap_map]
      all_goals
        intro t ht
        obtain ⟨piece, hmem, heq⟩ := hpiece t ht
        rw [← heq]
      · exact (hstands piece hmem).nonempty
      · exact (hstands piece hmem).head
      · exact (hstands piece hmem).last
    refine ⟨_, hkept, ?_⟩
    unfold parse
    simp only [hsegments]
    rw [← hpieceSpecs, parseValues_stands pieces hstands]
    rfl

/-- A table with an instant and a number. -/
def trips : Schema :=
  let column (name : String) (type : DataType) : Field :=
    ⟨name, none, name, type, none, false, [], none, none, none, none, none⟩
  ⟨"trips", .record, none, false, [column "at" .timestamp, column "id" .int],
    none, none, none, none, none⟩

/-- A day spans three segments in front of a number, each behind its label. -/
theorem parse_rendered_path_day_and_number :
    let specs : List PartitionSpec :=
      [⟨"at", .day, some "yyyy/MM/dd"⟩, ⟨"id", .value, none⟩]
    let values : List Value := [.long 1665262800000, .int 7]
    PartitionSpec.parseList "at:DAY:yyyy/MM/dd, id:VALUE" = .ok specs ∧
      render values specs trips true = .ok "at=2022/10/08/id=7" ∧
      ∃ read, (specs.zip values).mapM (kept trips) = .ok read ∧
        parse "at=2022/10/08/id=7" specs trips = .ok read := by
  intro specs values
  have hspecs : PartitionSpec.parseList "at:DAY:yyyy/MM/dd, id:VALUE" = .ok specs := by
    decide +kernel
  have hrender : render values specs trips true = .ok "at=2022/10/08/id=7" := by decide +kernel
  have hat : columnType ⟨"at", .day, some "yyyy/MM/dd"⟩ trips = .ok .timestamp := by decide +kernel
  have hid : columnType ⟨"id", .value, none⟩ trips = .ok .int := by decide +kernel
  have hday : Travels trips ⟨"at", .day, some "yyyy/MM/dd"⟩ (.long 1665262800000) := by
    have hcompile : DatePattern.compile "yyyy/MM/dd" = .ok ⟨"yyyy/MM/dd", [.field .year, .char '/',
        .field .month, .char '/', .field .day]⟩ := by decide +kernel
    have hstart : Bucket.start .day 1665262800000 = .ok 1665187200000 := by decide +kernel
    have hclock : DateTime.ofMillis? (1665187200000 : Int64).toInt =
        some ⟨⟨2022, 10, 8⟩, 0, 0, 0, 0⟩ := by decide +kernel
    have htext : Bucket.render (.long 1665262800000) .timestamp .day "yyyy/MM/dd" =
        .ok "2022/10/08" := by decide +kernel
    refine .bucket hat rfl rfl (.timestamp _) rfl (by decide) (fun p hp => ?_)
      (fun millis begin c hmillis hbegin hc => ?_) fun text hrender => ?_
    · cases hcompile.symm.trans hp
      exact ⟨by decide, fun _ => by decide, fun _ => by decide, fun h => nomatch h⟩
    · cases hmillis
      cases hstart.symm.trans hbegin
      cases hclock.symm.trans hc
      decide
    · cases htext.symm.trans hrender
      decide
  have hnumber : Travels trips ⟨"id", .value, none⟩ (.int 7) := .value hid rfl rfl (.int 7) rfl
  exact ⟨hspecs, hrender, parse_rendered_path hspecs (by decide)
    (List.forall_mem_cons.mpr ⟨hday, List.forall_mem_cons.mpr ⟨hnumber, by simp⟩⟩) hrender⟩

end Lakehouse.PartitionPath
