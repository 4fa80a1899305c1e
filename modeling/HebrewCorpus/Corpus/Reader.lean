import HebrewCorpus.Citation.Canonical
import HebrewCorpus.Corpus.LinkFile
import HebrewCorpus.Corpus.Machine
import HebrewCorpus.Import.Document
import HebrewCorpus.Overlay.Source
import HebrewCorpus.Settings.Basic

/-! # Corpora

A corpus export has three directories: one with the texts of the books, one with their schemas, and
one with link files. The schema of a text is found by its titles.

* **`Corpus`**, **`Corpus.locate`**: a corpus in a file tree, and the machine that reads it.
* **`Corpus.check`**: whether its directories are there.
* **`Corpus.schemaLookup`**: the schema files by the titles in them.
* **`Corpus.readDocument`**, **`Corpus.documents`**: the document of a text file, and of all of them.
* **`Corpus.linkFiles`**, **`Corpus.linksOf`**: the link files and the links in each.

A file that cannot be read is passed over, with the document that needs it. A value of the wrong kind
where a member or a title is looked for ends the reading of documents, and so does a value that the
machine cannot hold. -/

namespace HebrewCorpus

/-- The members of an object; to ask another value for members is a misuse. -/
def membersOf : Json → Checked Fields
  | .object fields => .ok fields
  | _ => .misuse .notObject

/-- The key of a title that may be null. -/
def titleKeyOf : Json → Checked (Option Text)
  | .null => .ok none
  | .text s => .ok (titleKey? s)
  | _ => .misuse .notText

/-! ### The corpus -/

/-- **A corpus in a file tree**, with the paths of its directories and the machine that reads it. -/
structure Corpus where
  tree : FileTree
  root : Path
  texts : Path
  schemas : Path
  links : Path
  machine : Machine

/-- Why the documents of a corpus cannot be read to the end. -/
inductive CorpusFault
  | missingDirectory (path : Path)
  | misuse (misuse : Misuse)
  deriving DecidableEq, Repr

namespace Corpus

/-- The directory that holds the export when there is one of its name. -/
def exportName : Text := "database_export".toList

/-- **The corpus of a file tree.** It lies in the directory of the export, or at the root. -/
def locate (tree : FileTree) (layout : CorpusLayout) (machine : Machine := .plain) : Corpus :=
  let root := if tree.isDirectory [exportName] then [exportName] else []
  let directory (written : Text) : Path := descend root written tree.isDirectory
  { tree, root, machine
    texts := directory layout.jsonDir
    schemas := directory layout.schemasDir
    links := directory layout.linksDir }

/-- The JSON value of a file. -/
def readJson (c : Corpus) (path : Path) : Except SourceFault Json :=
  match c.tree.bytes? path with
  | none => .error .notFile
  | some bytes => c.machine.jsonOf bytes

/-- The first directory that must be there and is not. -/
def missing? (c : Corpus) : Option Path :=
  [c.root, c.texts, c.schemas].find? (!c.tree.isDirectory ·)

/-- **Whether the directories of the corpus are there.** -/
def check (c : Corpus) : Except CorpusFault Unit :=
  match c.missing? with
  | some path => .error (.missingDirectory path)
  | none => .ok ()

/-! ### Schemas -/

/-- The files of a directory whose names have the given ending. -/
def filesEnding (c : Corpus) (directory : Path) (ending : String) : List Path :=
  ((c.tree.namesIn directory).filter ending.toList.isSuffixOf).map (directory ++ [·])

/-- The two titles that a schema file gives; a file that gives none is passed over. -/
def titlesIn (c : Corpus) (path : Path) : Except SourceFault (List Json) :=
  match c.readJson path with
  | .error (.json .malformed) => .ok []
  | .error fault => .error fault
  | .ok value =>
    match value with
    | .object fields =>
      match (Fields.get fields "schema").orElse (.object []) with
      | .object schema => .ok [Fields.get schema "title", Fields.get schema "heTitle"]
      | _ => .ok []
    | _ => .ok []

/-- The keys of the titles of a schema file, each with the file. -/
def keysIn (c : Corpus) (path : Path) : Except SourceFault (List (Text × Path)) := do
  let keys ← (← c.titlesIn path).mapM fun title => ofChecked (titleKeyOf title)
  return keys.filterMap fun key => key.map (·, path)

/-- Schema files by the keys of their titles. -/
abbrev SchemaTable := List (Text × Path)

/-- **The schema files by the keys of their titles**; of two files with one title the first counts. -/
def schemaLookup (c : Corpus) : Except SourceFault SchemaTable := do
  let entries ← (c.filesEnding c.schemas ".json").mapM c.keysIn
  return entries.flatten.foldl (fun found e =>
    if (found.lookup e.1).isSome then found else found ++ [e]) []

/-- The schema file named after a title, when there is one and its path can be asked for. -/
def schemaNamed? (c : Corpus) (title : Text) : Except SourceFault (Option Path) :=
  let name := Text.replaceChar ' ' ['_'] title ++ ".json".toList
  let path := descend c.schemas name c.tree.isDirectory
  if c.machine.reaches path then .ok (if c.tree.occurs path then some path else none)
  else .error .notFile

/-- The schema file for one title: by what schema files say, else by its name. Only a title with a
key asks for what they say. -/
def schemaFor? (c : Corpus) (schemas : Except SourceFault SchemaTable) (title : Json) :
    Except SourceFault (Option Path) := do
  let byKey ← match ← ofChecked (titleKeyOf title) with
    | some key => schemas.map (·.lookup key)
    | none => .ok none
  match byKey, title with
  | some path, _ => return some path
  | none, .text (a :: s) => c.schemaNamed? (a :: s)
  | none, _ => return none

/-- The schema file for the first of several titles that has one. -/
def findSchema? (c : Corpus) (schemas : Except SourceFault SchemaTable) :
    List Json → Except SourceFault (Option Path)
  | [] => .ok none
  | title :: titles => do
    match ← c.schemaFor? schemas title with
    | some path => return some path
    | none => findSchema? c schemas titles

/-! ### Documents -/

/-- The name of a text file in lower case. -/
def textFileName : Text := "merged.json".toList

/-- The text files of the corpus, in order. -/
def textFiles (c : Corpus) : List Path :=
  (c.tree.below c.texts).filter fun path => Text.lower (path.getLast?.getD []) = textFileName

/-- The name of an author: a text, or the Hebrew or English name of an object. -/
def authorName? (author : Json) : Option Text :=
  let name := match author with
    | .object fields => (Fields.get fields "he").orElse (Fields.get fields "en")
    | name => name
  match name with
  | .text s => if Text.isBlank s then none else some (Text.trim s)
  | _ => none

/-- The names of the authors in a schema file. -/
def authorsIn (schemaFile : Fields) : Checked (List Text) :=
  match ((schemaFile.get "authors").orElse (.array [])).elements? with
  | some authors => .ok (authors.filterMap authorName?)
  | none => .misuse .notIterable

/-- The first of several lists of texts that is not empty. -/
def firstTexts (values : List Json) : List Text :=
  ((values.map Json.texts).find? (!·.isEmpty)).getD []

/-- The document of a text file and its schema file. -/
def documentOf (textFile schemaFile : Fields) (folder : Text) (content : Json) :
    Checked Document := do
  let schema ← membersOf ((schemaFile.get "schema").orElse (.object []))
  let title := ((schema.get "title").orElse (textFile.get "title")).orElse (.text folder)
  let heTitle := ((schema.get "heTitle").orElse (textFile.get "heTitle")).orElse title
  let stated ← LinkKind.ofLabelValue (schemaFile.get "dependence")
  -- no other kind of link makes a book depend on another
  let dependence := stated.filter (·.isDirectional)
  let node ← SchemaNode.ofSource
    (.object (Json.put "heTitle".toList heTitle (Json.put "title".toList title schema)))
  let overlays ← overlaysOfSource (.object schemaFile)
  let authors ← authorsIn schemaFile
  let (titleEn, titleHe) ← ((readText title).within "title_en".toList).zip
    ((readText heTitle).within "title_he".toList)
  return {
    titleEn
    titleHe
    categories := firstTexts
      [schemaFile.get "heCategories", schema.get "heCategories", textFile.get "categories"]
    schema := node
    content
    overlays
    authors
    dependence
    isBase := some (dependence.isNone && (schemaFile.get "base_text_titles").isVacuous) }

/-- **The document of a text file**, when it has a schema and a text. -/
def readDocument (c : Corpus) (schemas : Except SourceFault SchemaTable) (path : Path) :
    Except SourceFault (Option Document) := do
  let textFile ← ofChecked (membersOf (← c.readJson path))
  let folder := c.tree.folderOf path
  let titles := [textFile.get "title", textFile.get "heTitle",
    .text (Text.replaceChar '_' [' '] folder), .text folder]
  match ← c.findSchema? schemas titles, textFile.lookup "text".toList with
  | some schemaPath, some content =>
    let schemaFile ← ofChecked (membersOf (← c.readJson schemaPath))
    if c.machine.makes textFile schemaFile then
      return some (← ofChecked (documentOf textFile schemaFile folder content))
    else ofChecked (.misuse .exhausted)
  | _, _ => return none

/-- The documents of text files, up to a misuse. -/
def documentsOf (c : Corpus) (schemas : Except SourceFault SchemaTable) :
    List Path → List Document × Option Misuse
  | [] => ([], none)
  | path :: paths =>
    match c.readDocument schemas path with
    | .ok (some document) =>
      let (documents, misuse) := documentsOf c schemas paths
      (document :: documents, misuse)
    | .ok none => documentsOf c schemas paths
    | .error fault =>
      match fault.misuse? with
      | some misuse => ([], some misuse)
      | none => documentsOf c schemas paths

/-- **The documents of the corpus**, and the fault at which reading ended early. -/
def documents (c : Corpus) : List Document × Option CorpusFault :=
  match c.check with
  | .error fault => ([], some fault)
  | .ok () =>
    let (documents, misuse) := c.documentsOf c.schemaLookup c.textFiles
    (documents, misuse.map .misuse)

/-! ### Links -/

/-- Why a link file cannot be read. -/
inductive LinkFileFault
  /-- There is a directory in its place. -/
  | notFile
  | csv (fault : CsvFault)
  deriving DecidableEq, Repr

/-- The link files of the corpus, in order. -/
def linkFiles (c : Corpus) : List Path := c.filesEnding c.links ".csv"

/-- **The links of a link file.** -/
def linksOf (c : Corpus) (path : Path) : Except LinkFileFault (List RawLink) :=
  match c.tree.bytes? path with
  | none => .error .notFile
  | some bytes => (readLinks (Text.decodeFile c.machine.codecs bytes)).mapError .csv

end Corpus

end HebrewCorpus
