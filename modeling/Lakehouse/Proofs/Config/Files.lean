import Lakehouse.Proofs.Except
import Lakehouse.Yaml.Documents

/-!
# What is loaded

What is loaded from a file is what its document is read as, by whatever reads documents. Of the
reader only `DocumentReader.ReadsDefaults` is needed, and only for the providers, which begin with
the defaults.

* `Dataset.load_eq_ok_iff`: a dataset is loaded if its document is read as one with a source format.
* `ProviderConfig.load_eq_ok_iff`: the default providers are loaded, with a document laid over them.
* `Yaml.readsDefaults`: the reader of plain documents reads the defaults.

About `DatasetConfig::load` and `ConvertersConfig::load`, which are modelled in `Config.Files`.
-/

namespace Lakehouse

variable {reader : DocumentReader} {files : FileSystem} {path text : String}

theorem FileSystem.read_eq_ok_iff : files.read path = .ok text ↔ files path = .ok text :=
  mapError_eq_ok

theorem Dataset.parse_eq_ok_iff {d : Dataset} : parse reader text = .ok d ↔
    reader.dataset text = .ok d ∧ Text.isAllBlank d.sourceFormat = false := by
  unfold parse
  simp only [bind_eq_ok, mapError_eq_ok, ite_error_eq_ok, Bool.not_eq_true]
  constructor
  · rintro ⟨d, hd, hformat, ⟨⟩⟩
    exact ⟨hd, hformat⟩
  · rintro ⟨hd, hformat⟩
    exact ⟨d, hd, hformat, rfl⟩

/-- **A dataset is loaded if its document is read as one with a source format.** -/
theorem Dataset.load_eq_ok_iff {d : Dataset} : load reader files path = .ok d ↔
    ∃ text, files path = .ok text ∧ reader.dataset text = .ok d ∧
      Text.isAllBlank d.sourceFormat = false := by
  unfold load
  simp only [bind_eq_ok, FileSystem.read_eq_ok_iff, parse_eq_ok_iff]

theorem ProviderConfig.parse_none (h : reader.ReadsDefaults) :
    parse reader none = .ok .default := by
  unfold parse
  rw [h]
  rfl

theorem ProviderConfig.parse_some_eq_ok_iff (h : reader.ReadsDefaults) {c : ProviderConfig} :
    parse reader (some text) = .ok c ↔
      ∃ other, reader.providers text = .ok other ∧ c = .merge .default other := by
  have hparse : parse reader (some text) =
      ((reader.providers text).mapError malformed).map (.merge .default) := by
    unfold parse
    rw [h]
    change ((reader.providers text).mapError malformed >>= fun other => pure (merge .default other))
      = _
    cases reader.providers text <;> rfl
  rw [hparse, map_eq_ok]
  simp only [mapError_eq_ok, eq_comm (a := c)]

/-- **The default providers are loaded**, if the reader reads them, with a document laid over them
where a file is named. -/
theorem ProviderConfig.load_eq_ok_iff (h : reader.ReadsDefaults) {named : Option String}
    {c : ProviderConfig} : load reader files named = .ok c ↔
      match named with
      | none => c = .default
      | some path => ∃ text other, files path = .ok text ∧ reader.providers text = .ok other ∧
        c = .merge .default other := by
  cases named with
  | none =>
    change parse reader none = .ok c ↔ _
    rw [parse_none h, Except.ok.injEq, eq_comm]
  | some path =>
    have hload : load reader files (some path) =
        files.read path >>= fun text => parse reader (some text) := by
      unfold load
      rw [Option.mapM_some]
      cases files.read path <;> rfl
    rw [hload]
    simp only [bind_eq_ok, FileSystem.read_eq_ok_iff, parse_some_eq_ok_iff h, exists_and_left]

theorem Yaml.parse_ofList (cs : List Char) :
    parse (String.ofList cs) = (tokens cs).bind ofTokens := by
  unfold parse
  rw [String.toList_ofList]
  rfl

theorem Yaml.ofText_ofList {α : Type} {read : Yaml → Option α} {cs : List Char} {a : α}
    (h : ((tokens cs).bind ofTokens).bind read = some a) :
    ofText read (String.ofList cs) = .ok a := by
  unfold ofText
  rw [parse_ofList, h]

/-- The reader of plain documents reads the defaults. -/
theorem Yaml.readsDefaults : Yaml.reader.ReadsDefaults := by
  dsimp only [DocumentReader.ReadsDefaults, reader]
  unfold ProviderConfig.defaultText
  -- from here on as characters: to decode a text by evaluation is slow
  repeat rw [← String.ofList_append]
  exact ofText_ofList (by decide +kernel)

end Lakehouse
