import HebrewCorpus.Corpus.FileTree
import HebrewCorpus.Json.Reader
import HebrewCorpus.Record.Field

/-! # Machines

What is read of a file does not depend on its bytes alone. Bytes that are no UTF-8 are read as a
detector of encodings guesses; memory and stack may not suffice for a value; and a file system takes
no names of any length.

* **`Machine`**: what a corpus is read with; **`Machine.plain`** has no detector and no limits.
* **`SourceFault`**: why a file cannot be read.
* **`Machine.jsonOf`**: the JSON value of a file's bytes. -/

namespace HebrewCorpus

/-- **What a corpus is read with.** -/
structure Machine where
  codecs : Text.Codecs
  /-- Whether memory and stack suffice to read a JSON text. -/
  reads : Text → Bool
  /-- Whether they suffice to make the document of a text file and its schema file. -/
  makes : (textFile schemaFile : Fields) → Bool
  /-- Whether the file system can be asked for a path. -/
  reaches : Path → Bool

/-- A machine without a detector of encodings, and without limits. -/
def Machine.plain : Machine where
  codecs := .plain
  reads _ := true
  makes _ _ := true
  reaches _ := true

/-- **Why a file cannot be read.** -/
inductive SourceFault
  /-- There is a directory in its place, or its path cannot be asked for. -/
  | notFile
  | json (fault : JsonFault)
  | refused (refusal : Refusal)
  deriving DecidableEq, Repr

/-- The misuse that ends all reading, if the fault is one. -/
def SourceFault.misuse? : SourceFault → Option Misuse
  | .refused (.misuse m) => some m
  | _ => none

/-- A reading of values within the reading of a file. -/
def ofChecked {α : Type} (a : Checked α) : Except SourceFault α := a.mapError .refused

/-- **The JSON value of a file's bytes**, as far as memory and stack suffice to read it. -/
def Machine.jsonOf (m : Machine) (bytes : ByteArray) : Except SourceFault Json :=
  let s := Text.decodeFile m.codecs bytes
  if m.reads s then (Json.parse s).mapError .json else ofChecked (.misuse .exhausted)

end HebrewCorpus
