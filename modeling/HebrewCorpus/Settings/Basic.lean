import HebrewCorpus.Text.Basic

/-! # Settings

What an import may be told: where the corpus lies, how much is handed over at a time, and which
categories of books follow rules of their own.

* **`Settings`**: all settings, each with a default.
* **`PlacementRules.isPaginated`**, **`PlacementRules.isMultiSection`**: whether a book with the
  given categories is addressed by pages, or is made of several parts with addresses of their own.
* **`ImportSettings.workerCount?`**: the number of workers asked for. -/

namespace HebrewCorpus

/-- The name, version and language of the application. -/
structure AppInfo where
  name : Text := "Seforim Import".toList
  version : Text := "1.0.0".toList
  language : Text := "he".toList
  deriving DecidableEq, Repr

/-- Where the corpus lies, and the names of the directories inside it. -/
structure CorpusLayout where
  root : Text := "./data/sefaria".toList
  jsonDir : Text := "json".toList
  schemasDir : Text := "schemas".toList
  linksDir : Text := "links".toList
  deriving DecidableEq, Repr

/-- How workers are run. No answer depends on it. -/
inductive Executor
  | process
  | thread
  deriving DecidableEq, Repr

/-- The name of a way to run workers. -/
def Executor.name : Executor → Text
  | .process => "process".toList
  | .thread => "thread".toList

/-- How an import is run: its workers, and the numbers of lines and links handed over at a time. -/
structure ImportSettings where
  maxWorkers : Option Int := none
  executor : Executor := .process
  lineBatch : Int := 5000
  linkBatch : Int := 2000
  deriving DecidableEq, Repr

/-- The number of workers asked for, at least one; nothing when the choice is left open. -/
def ImportSettings.workerCount? (s : ImportSettings) : Option Int :=
  match s.maxWorkers with
  | none | some 0 => none
  | some n => some (max n 1)

/-- **How the nodes of overlays are placed**: fragments of the categories of paginated books and of
books with several sections, and the overlays whose parts are left out everywhere. -/
structure PlacementRules where
  paginated : List Text := ["תלמוד".toList]
  multiSection : List Text := ["שולחן ערוך".toList, "טור".toList]
  suppressed : List Text := ["30 Day Cycle".toList]
  deriving DecidableEq, Repr

/-- Whether some category contains some fragment. -/
def matchesAny (categories fragments : List Text) : Bool :=
  categories.any fun category => fragments.any (Text.contains category)

namespace PlacementRules

/-- Whether a book with the given categories is addressed by pages. -/
def isPaginated (r : PlacementRules) (categories : List Text) : Bool :=
  matchesAny categories r.paginated

/-- Whether a book with the given categories has several sections. -/
def isMultiSection (r : PlacementRules) (categories : List Text) : Bool :=
  matchesAny categories r.multiSection

end PlacementRules

/-- Where results are stored. -/
structure StorageSettings where
  databasePath : Text := "./db/seforim.db".toList
  deriving DecidableEq, Repr

/-- **All settings.** -/
structure Settings where
  app : AppInfo := {}
  corpus : CorpusLayout := {}
  importer : ImportSettings := {}
  placement : PlacementRules := {}
  storage : StorageSettings := {}
  deriving DecidableEq, Repr

end HebrewCorpus
