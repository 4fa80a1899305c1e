import HebrewCorpus.Proofs.Corpus.SchemaTable
import Mathlib.Data.List.TakeWhile

/-! # Which documents are read

The text files of a corpus are read one after the other. A file that cannot be read, or for which no
schema is found, is passed over; only a misuse ends the reading.

* **`Corpus.documentAt?`**, **`Corpus.misuseAt?`**: what becomes of a text file by itself.
* **`Corpus.documents_eq`**: the documents of a corpus, whatever is in its files.
* **`Corpus.Takes`**: the schema file that a text file is read with.
* **`Corpus.WellKinded`**, **`Corpus.WithinLimits`**: what is asked of the values in the files, and of
  the machine that reads them.
* **`Corpus.misuseAt?_eq_none`**: then the reading of no text file ends in a misuse. -/

namespace HebrewCorpus

open Checked

/-! ### Readings of files -/

/-- **A reading after which the next file is read**: it gives a value, or the file is passed over. -/
def Passable {α : Type} (a : Except SourceFault α) : Prop :=
  ∀ fault, a = .error fault → fault.misuse? = none

namespace Passable

variable {α β : Type}

/-- A value does not end the reading. -/
@[simp] theorem ok (x : α) : Passable (.ok x : Except SourceFault α) := fun _ h => nomatch h

/-- A reading of values without misuse does not end the reading of files. -/
theorem ofChecked {a : Checked α} (h : NoMisuse a) : Passable (HebrewCorpus.ofChecked a) := by
  rcases a with (m | faults) | x
  · exact absurd rfl (h m)
  · rintro _ ⟨⟩
    rfl
  · exact ok x

/-- Bytes that the machine suffices to read do not end the reading of files. -/
theorem jsonOf {m : Machine} {bytes : ByteArray}
    (h : m.reads (Text.decodeFile m.codecs bytes) = true) : Passable (m.jsonOf bytes) := by
  unfold Machine.jsonOf
  rw [if_pos h]
  cases Json.parse (Text.decodeFile m.codecs bytes) with
  | ok value => exact ok value
  | error fault =>
    rintro _ ⟨⟩
    rfl

/-- A reading goes on when what follows every value does. -/
theorem bind {a : Except SourceFault α} {f : α → Except SourceFault β} (ha : Passable a)
    (hf : ∀ x, a = .ok x → Passable (f x)) : Passable (a >>= f) := by
  cases a with
  | error fault =>
    rintro _ ⟨⟩
    exact ha fault rfl
  | ok x => exact hf x rfl

/-- What is made of the value does not end the reading. -/
theorem map {a : Except SourceFault α} (ha : Passable a) (f : α → β) : Passable (Except.map f a) :=
  bind (f := fun x => .ok (f x)) ha fun x _ => ok (f x)

end Passable

namespace Corpus

variable {c : Corpus} {path : Path}

/-! ### Text files by themselves -/

/-- **The document that a text file gives**, when it gives one. -/
def documentAt? (c : Corpus) (path : Path) : Option Document :=
  match c.readDocument c.schemaLookup path with
  | .ok document => document
  | .error _ => none

/-- The misuse in which the reading of a text file ends, when it ends in one. -/
def misuseAt? (c : Corpus) (path : Path) : Option Misuse :=
  match c.readDocument c.schemaLookup path with
  | .ok _ => none
  | .error fault => fault.misuse?

/-- Text files give their documents in order, up to the first whose reading ends in a misuse. -/
theorem documentsOf_eq (c : Corpus) (paths : List Path) : c.documentsOf c.schemaLookup paths =
    ((paths.takeWhile fun path => (c.misuseAt? path).isNone).filterMap c.documentAt?,
      paths.findSome? c.misuseAt?) := by
  induction paths with
  | nil => rfl
  | cons path paths ih =>
    rw [documentsOf, List.takeWhile_cons, List.findSome?_cons]
    cases hread : c.readDocument c.schemaLookup path with
    | ok document =>
      have hmisuse : c.misuseAt? path = none := by rw [misuseAt?, hread]
      have hdocument : c.documentAt? path = document := by rw [documentAt?, hread]
      cases document <;> simp [hmisuse, hdocument, ih]
    | error fault =>
      have hmisuse : c.misuseAt? path = fault.misuse? := by rw [misuseAt?, hread]
      have hdocument : c.documentAt? path = none := by rw [documentAt?, hread]
      cases hf : fault.misuse? <;> simp [hmisuse, hdocument, hf, ih]

/-- **The documents of a corpus**, whatever is in its files: those of its text files, up to the first
whose reading ends in a misuse. -/
theorem documents_eq (hdirectories : c.missing? = none) : c.documents =
    ((c.textFiles.takeWhile fun path => (c.misuseAt? path).isNone).filterMap c.documentAt?,
      (c.textFiles.findSome? c.misuseAt?).map .misuse) := by
  rw [documents, check, hdirectories, documentsOf_eq]

/-- When no reading ends in a misuse, every text file that gives a document has it among those of the
corpus. -/
theorem documents_eq_of_misuseAt? (hdirectories : c.missing? = none)
    (h : ∀ path ∈ c.textFiles, c.misuseAt? path = none) :
    c.documents = (c.textFiles.filterMap c.documentAt?, none) := by
  have hall : c.textFiles.takeWhile (fun path => (c.misuseAt? path).isNone) = c.textFiles := by
    refine List.takeWhile_eq_self_iff.2 fun path hp => ?_
    rw [h path hp]
    rfl
  rw [documents_eq hdirectories, hall, List.findSome?_eq_none_iff.2 h]
  rfl

/-! ### The schema file of a text file -/

/-- What the schema of a text file is looked for by: its two titles, and the name of its directory. -/
def searchTitles (c : Corpus) (path : Path) (textFile : Fields) : List Json :=
  [textFile.get "title", textFile.get "heTitle",
    .text (Text.replaceChar '_' [' '] (c.tree.folderOf path)), .text (c.tree.folderOf path)]

/-- **The schema file that a text file is read with**: the file has a text, and what its schema is
looked for by leads to that schema file. -/
def Takes (c : Corpus) (path schemaPath : Path) : Prop :=
  ∃ textFile, c.readJson path = .ok (.object textFile) ∧
    (textFile.lookup "text".toList).isSome ∧
      c.findSchema? c.schemaLookup (c.searchTitles path textFile) = .ok (some schemaPath)

/-- A schema file is looked for by its name without misuse. -/
theorem passable_schemaNamed? (c : Corpus) (title : Text) : Passable (c.schemaNamed? title) := by
  unfold schemaNamed?
  dsimp only
  split
  · exact .ok _
  · rintro _ ⟨⟩
    rfl

/-- A schema is looked for by one title without misuse, when the title is null or a text. -/
theorem passable_schemaFor? {schemas : Except SourceFault SchemaTable} (hs : Passable schemas)
    {title : Json} (h : title.NullOrText) : Passable (c.schemaFor? schemas title) := by
  have hkey : ofChecked (titleKeyOf title) = .ok title.titleKey? := by
    rw [titleKeyOf_eq h]
    rfl
  unfold schemaFor?
  rw [hkey]
  -- whether a file is found by the key or not, the rest reads no file
  cases title.titleKey? with
  | some key =>
    refine (hs.map (·.lookup key)).bind fun found _ => ?_
    dsimp only
    split
    · exact .ok _
    · exact passable_schemaNamed? c _
    · exact .ok _
  | none =>
    dsimp only [bind, Except.bind]
    split
    · exact .ok _
    · exact passable_schemaNamed? c _
    · exact .ok _

/-- A schema is looked for by several titles without misuse, when each is null or a text. -/
theorem passable_findSchema? {schemas : Except SourceFault SchemaTable} (hs : Passable schemas)
    {titles : List Json} (h : ∀ title ∈ titles, title.NullOrText) :
    Passable (c.findSchema? schemas titles) := by
  induction titles with
  | nil => exact .ok none
  | cons title titles ih =>
    unfold findSchema?
    refine (passable_schemaFor? hs (h title List.mem_cons_self)).bind fun found _ => ?_
    split
    · exact .ok _
    · exact ih fun title ht => h title (List.mem_cons_of_mem _ ht)

/-! ### Values of the right kinds -/

/-- **What is asked of the values in a corpus.** It concerns its text files, the schema files that
these are read with, and the titles in all schema files; nothing is asked of a file that is no
JSON. -/
structure WellKinded (c : Corpus) : Prop where
  /-- The titles in a schema file are null or texts. -/
  titles : ∀ path ∈ c.schemaFiles, c.GoodTitles path
  /-- A text file holds an object, whose titles are null or texts. -/
  texts : ∀ path value, path ∈ c.textFiles → c.readJson path = .ok value →
    ∃ textFile, value = .object textFile ∧
      (Fields.get textFile "title").NullOrText ∧ (Fields.get textFile "heTitle").NullOrText
  /-- A schema file that a text file is read with holds an object that is as is asked. -/
  schemas : ∀ path schemaPath value, path ∈ c.textFiles → c.Takes path schemaPath →
    c.readJson schemaPath = .ok value → ∃ schemaFile, value = .object schemaFile ∧
      IsSchemaFile schemaFile

/-- Memory and stack suffice to read a file, if there is one. -/
def Fits (c : Corpus) (path : Path) : Prop :=
  ∀ bytes, c.tree.bytes? path = some bytes →
    c.machine.reads (Text.decodeFile c.machine.codecs bytes) = true

/-- **What is asked of the machine that reads a corpus**: that memory and stack suffice for the text
files and for the schema files that these are read with. -/
structure WithinLimits (c : Corpus) : Prop where
  texts : ∀ path ∈ c.textFiles, c.Fits path
  schemas : ∀ path schemaPath, path ∈ c.textFiles → c.Takes path schemaPath → c.Fits schemaPath
  makes : ∀ path schemaPath textFile schemaFile, path ∈ c.textFiles → c.Takes path schemaPath →
    c.readJson path = .ok (.object textFile) → c.readJson schemaPath = .ok (.object schemaFile) →
      c.machine.makes textFile schemaFile = true

/-- A file that memory and stack suffice to read does not end the reading of files. -/
theorem Fits.passable (h : c.Fits path) : Passable (c.readJson path) := by
  unfold readJson
  split
  · rintro _ ⟨⟩
    rfl
  · next bytes hbytes => exact Passable.jsonOf (h bytes hbytes)

/-- What the schema of a text file is looked for by is null or a text. -/
theorem WellKinded.nullOrText_of_mem (h : WellKinded c) (hp : path ∈ c.textFiles)
    {textFile : Fields} (hread : c.readJson path = .ok (.object textFile)) {title : Json}
    (ht : title ∈ c.searchTitles path textFile) : title.NullOrText := by
  obtain ⟨_, heq, hfirst, hsecond⟩ := h.texts path _ hp hread
  injection heq with heq
  subst heq
  rw [searchTitles] at ht
  simp only [List.mem_cons, List.not_mem_nil, or_false] at ht
  rcases ht with rfl | rfl | rfl | rfl
  · exact hfirst
  · exact hsecond
  · exact .inr ⟨_, rfl⟩
  · exact .inr ⟨_, rfl⟩

/-- A reading that does not end the reading of files ends in no misuse. -/
theorem misuseAt?_of_passable (h : Passable (c.readDocument c.schemaLookup path)) :
    c.misuseAt? path = none := by
  cases hread : c.readDocument c.schemaLookup path with
  | ok document => rw [misuseAt?, hread]
  | error fault =>
    rw [misuseAt?, hread]
    exact h fault hread

/-- **No reading of a text file ends in a misuse** when the values are of the right kinds and the machine
suffices for them. -/
theorem misuseAt?_eq_none (h : WellKinded c) (hl : WithinLimits c) (hp : path ∈ c.textFiles) :
    c.misuseAt? path = none := by
  obtain ⟨table, htable, -⟩ := exists_schemaLookup h.titles
  have hschemas : Passable c.schemaLookup := htable ▸ .ok table
  refine misuseAt?_of_passable ?_
  unfold readDocument
  refine (hl.texts path hp).passable.bind fun value hvalue => ?_
  obtain ⟨textFile, rfl, -, -⟩ := h.texts path value hp hvalue
  show Passable (c.findSchema? c.schemaLookup (c.searchTitles path textFile) >>= _)
  refine (passable_findSchema? hschemas fun title => h.nullOrText_of_mem hp hvalue).bind
    fun found hfound => ?_
  split
  · next schemaPath content hcontent =>
    have htakes : c.Takes path schemaPath := ⟨textFile, hvalue, by rw [hcontent]; rfl, hfound⟩
    refine (hl.schemas path schemaPath hp htakes).passable.bind fun value hschema => ?_
    obtain ⟨schemaFile, rfl, hfile⟩ := h.schemas path schemaPath value hp htakes hschema
    have hmakes := hl.makes path schemaPath textFile schemaFile hp htakes hvalue hschema
    show Passable (if c.machine.makes textFile schemaFile then
      ofChecked (documentOf textFile schemaFile _ content) >>= _ else _)
    rw [if_pos hmakes]
    exact (Passable.ofChecked (hfile.noMisuse_documentOf textFile _ content)).bind fun _ _ => .ok _
  · exact .ok none

end Corpus

end HebrewCorpus
