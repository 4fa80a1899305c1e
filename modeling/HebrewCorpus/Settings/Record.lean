import HebrewCorpus.Record.Field
import HebrewCorpus.Settings.Basic

/-! # Settings as records

* **`Settings.ofJson`**: the settings of a record; what it leaves out keeps its default.
* **`Settings.load`**: the settings of a settings file and of the environment, which may move the
  corpus and the store.
* **`Settings.toJson`**: the written form of settings. -/

namespace HebrewCorpus

/-- The application of a record. -/
def AppInfo.ofJson : Json → Checked AppInfo :=
  readRecord fun fields =>
    ((fields.withDefault "name" readText ({} : AppInfo).name).zip
      ((fields.withDefault "version" readText ({} : AppInfo).version).zip
        (fields.withDefault "language" readText ({} : AppInfo).language))).map
          fun (name, version, language) => { name, version, language }

/-- The layout of a record. -/
def CorpusLayout.ofJson : Json → Checked CorpusLayout :=
  readRecord fun fields =>
    ((fields.withDefault "root" readText ({} : CorpusLayout).root).zip
      ((fields.withDefault "json_dir" readText ({} : CorpusLayout).jsonDir).zip
        ((fields.withDefault "schemas_dir" readText ({} : CorpusLayout).schemasDir).zip
          (fields.withDefault "links_dir" readText ({} : CorpusLayout).linksDir)))).map
            fun (root, jsonDir, schemasDir, linksDir) => { root, jsonDir, schemasDir, linksDir }

/-- A way to run workers, by its name. -/
def Executor.ofJson (value : Json) : Checked Executor :=
  match value with
  | .text s =>
    match [Executor.process, Executor.thread].find? (·.name = s) with
    | some executor => .ok executor
    | none => .fault .notAllowed
  | _ => .fault .notAllowed

/-- The way an import is run, of a record. -/
def ImportSettings.ofJson : Json → Checked ImportSettings :=
  readRecord fun fields =>
    ((fields.withDefault "max_workers" (readOptional readWhole) none).zip
      ((fields.withDefault "executor" Executor.ofJson .process).zip
        ((fields.withDefault "line_batch_size" readWhole ({} : ImportSettings).lineBatch).zip
          (fields.withDefault "link_batch_size" readWhole ({} : ImportSettings).linkBatch)))).map
            fun (maxWorkers, executor, lineBatch, linkBatch) =>
              { maxWorkers, executor, lineBatch, linkBatch }

/-- The rules of a record. -/
def PlacementRules.ofJson : Json → Checked PlacementRules :=
  readRecord fun fields =>
    let texts (name : String) (default : List Text) :=
      Fields.withDefault fields name (readList readText) default
    ((texts "paginated_categories" ({} : PlacementRules).paginated).zip
      ((texts "multi_section_categories" ({} : PlacementRules).multiSection).zip
        (texts "inline_suppressed_structures" ({} : PlacementRules).suppressed))).map
          fun (paginated, multiSection, suppressed) => { paginated, multiSection, suppressed }

/-- The place of results, of a record. -/
def StorageSettings.ofJson : Json → Checked StorageSettings :=
  readRecord fun fields =>
    (fields.withDefault "sqlite_path" readText ({} : StorageSettings).databasePath).map
      fun databasePath => { databasePath }

namespace Settings

/-- The settings with the given fields. -/
def ofFields (fields : Fields) : Checked Settings :=
  ((fields.withDefault "app" AppInfo.ofJson {}).zip
    ((fields.withDefault "corpus" CorpusLayout.ofJson {}).zip
      ((fields.withDefault "importer" ImportSettings.ofJson {}).zip
        ((fields.withDefault "resolution" PlacementRules.ofJson {}).zip
          (fields.withDefault "storage" StorageSettings.ofJson {}))))).map
            fun (app, corpus, importer, placement, storage) =>
              { app, corpus, importer, placement, storage }

/-- **The settings of a record.** -/
def ofJson : Json → Checked Settings := readRecord ofFields

/-- The settings of what a settings file holds; a vacuous value leaves all defaults. -/
def ofContent (content : Json) : Checked Settings :=
  match content.orElse (.object []) with
  | .object fields => ofFields fields
  | _ => .misuse .notIterable

/-- A variable of the environment, when it is set to more than the empty text. -/
def setValue? (environment : List (Text × Text)) (name : String) : Option Text :=
  (environment.lookup name.toList).filter (!·.isEmpty)

/-- **The settings of a file and of the environment**, which has the last word on the places of the
corpus and of the store. -/
def load (content : Json) (environment : List (Text × Text)) : Checked Settings :=
  (ofContent content).map fun s =>
    { s with
      corpus := { s.corpus with
        root := (setValue? environment "SEFORIM_CORPUS_ROOT").getD s.corpus.root }
      storage := { s.storage with
        databasePath := (setValue? environment "SEFORIM_SQLITE_PATH").getD s.storage.databasePath } }

/-- **The written form of settings.** -/
def toJson (s : Settings) : Json :=
  let texts (ts : List Text) := Json.array (ts.map .text)
  .object [
    ("app".toList, .object [("name".toList, .text s.app.name),
      ("version".toList, .text s.app.version), ("language".toList, .text s.app.language)]),
    ("corpus".toList, .object [("root".toList, .text s.corpus.root),
      ("json_dir".toList, .text s.corpus.jsonDir), ("schemas_dir".toList, .text s.corpus.schemasDir),
      ("links_dir".toList, .text s.corpus.linksDir)]),
    ("importer".toList, .object [
      ("max_workers".toList, (s.importer.maxWorkers.map Json.int).getD .null),
      ("executor".toList, .text s.importer.executor.name),
      ("line_batch_size".toList, .int s.importer.lineBatch),
      ("link_batch_size".toList, .int s.importer.linkBatch)]),
    ("resolution".toList, .object [
      ("paginated_categories".toList, texts s.placement.paginated),
      ("multi_section_categories".toList, texts s.placement.multiSection),
      ("inline_suppressed_structures".toList, texts s.placement.suppressed)]),
    ("storage".toList, .object [("sqlite_path".toList, .text s.storage.databasePath)])]

end Settings

end HebrewCorpus
