import HebrewCorpus.Corpus.Reader
import HebrewCorpus.Import.Run

/-! # Imports of a corpus

* **`importCorpus`**: the import of all documents and link files of a corpus. -/

namespace HebrewCorpus

/-- Why a corpus cannot be imported. -/
inductive CorpusImportFault
  | corpus (fault : CorpusFault)
  | run (fault : ImportFault)
  deriving DecidableEq, Repr

/-- **The import of a corpus.** All its documents must be readable as far as that goes; a link file
that cannot be read is counted. -/
def importCorpus (settings : Settings) (halt : Halt) (tree : FileTree) (machine : Machine := .plain) :
    Except CorpusImportFault (Progress × RefIndex) :=
  let corpus := Corpus.locate tree settings.corpus machine
  match corpus.documents with
  | (_, some fault) => .error (.corpus fault)
  | (documents, none) =>
    let files := corpus.linkFiles.map fun path => (corpus.linksOf path).toOption
    (runImport settings halt documents files).mapError .run

end HebrewCorpus
