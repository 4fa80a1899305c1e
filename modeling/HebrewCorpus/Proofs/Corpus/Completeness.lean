import HebrewCorpus.Proofs.Corpus.Rewriting
import HebrewCorpus.Proofs.Json.Texts
import Mathlib.Data.List.Basic
import Mathlib.Data.List.Find

/-! # Every file for itself

Once the directories of a corpus are there, its text files give their documents in order, up to the
first whose reading ends in a misuse. When the values in the files are of the right kinds, and the
machine suffices for them, there is no such file: a file that cannot be read costs its own document,
or its own titles, and nothing else. This holds whatever the detector of encodings makes of bytes
that are no UTF-8.

* **`Corpus.Readable`**: a corpus with all its directories.
* **`Corpus.EachForItself`**: no file stands in the way of another.
* **`Corpus.documents_of_directories`**: what is read from a corpus with all its directories.
* **`Corpus.documents_listCorpus`**: a text file with a list in place of an object takes the
  documents of the text files behind it. -/

namespace HebrewCorpus

/-- The bytes of a file are those of one of the files of the tree. -/
theorem FileTree.mem_files_of_bytes? {t : FileTree} {path : Path} {bytes : ByteArray}
    (h : t.bytes? path = some bytes) : (path, bytes) ∈ t.files := by
  obtain ⟨front, back, hfiles, -⟩ := List.lookup_eq_some_iff.1 h
  exact hfiles ▸ List.mem_append_right front List.mem_cons_self

namespace Corpus

variable {c : Corpus} {file path : Path} {bytes : ByteArray}

/-- There is a file in the place of a text file. -/
theorem isSome_bytes?_of_mem_textFiles (h : file ∈ c.textFiles) :
    (c.tree.bytes? file).isSome := by
  have hbelow : file ∈ c.tree.below c.texts := (List.mem_filter.1 h).1
  have hpath : file ∈ c.tree.files.map (·.1) :=
    (List.mem_filter.1 ((sortOrdered_perm _ _).mem_iff.1 hbelow)).1
  obtain ⟨f, hf, hname⟩ := List.mem_map.1 hpath
  exact List.lookup_isSome_iff.2 ⟨f, hf, beq_iff_eq.2 hname.symm⟩

/-- There is a file in the place of a schema file with good titles. -/
theorem GoodTitles.isSome_bytes? (h : c.GoodTitles file) : (c.tree.bytes? file).isSome := by
  rw [GoodTitles, readJson] at h
  cases hb : c.tree.bytes? file with
  | none => simp [hb] at h
  | some old => rfl

/-- A text file that is no JSON gives no document, and its reading ends in no misuse. -/
theorem documentAt?_of_json_fault {fault : JsonFault}
    (h : c.readJson path = .error (.json fault)) :
    c.documentAt? path = none ∧ c.misuseAt? path = none := by
  have hread : c.readDocument c.schemaLookup path = .error (.json fault) := by
    unfold readDocument
    rw [h]
    rfl
  exact ⟨by rw [documentAt?, hread], by rw [misuseAt?, hread]; rfl⟩

/-- A text file without a text gives no document. -/
theorem documentAt?_of_lookup_text {textFile : Fields}
    (hread : c.readJson path = .ok (.object textFile))
    (htext : textFile.lookup "text".toList = none) : c.documentAt? path = none := by
  have hdocument : c.readDocument c.schemaLookup path =
      (c.findSchema? c.schemaLookup (c.searchTitles path textFile)).map fun _ => none := by
    unfold readDocument
    rw [hread]
    show (c.findSchema? c.schemaLookup (c.searchTitles path textFile) >>= _) = _
    cases c.findSchema? c.schemaLookup (c.searchTitles path textFile) with
    | error fault => rfl
    | ok found =>
      simp only [htext, bind, Except.bind]
      cases found <;> rfl
  rw [documentAt?, hdocument]
  cases c.findSchema? c.schemaLookup (c.searchTitles path textFile) <;> rfl

/-- A text file that is no JSON costs its own document. -/
theorem documents_rewrite {fault : JsonFault} (hdirectories : c.missing? = none)
    (hmisuse : ∀ path ∈ c.textFiles, c.misuseAt? path = none) (htext : file ∈ c.textFiles)
    (hschema : file ∉ c.schemaFiles) (htakes : ∀ path ∈ c.textFiles, ¬ c.Takes path file)
    (hbytes : c.machine.jsonOf bytes = .error (.json fault)) :
    (c.rewrite file bytes).documents =
      ((c.textFiles.filter (· ≠ file)).filterMap c.documentAt?, none) := by
  have hself : (c.rewrite file bytes).readJson file = .error (.json fault) :=
    (readJson_rewrite_self c file bytes (isSome_bytes?_of_mem_textFiles htext)).trans hbytes
  -- the other text files are read as before, with the same table
  have hother (path : Path) (hp : path ∈ c.textFiles) (hne : path ≠ file) :
      (c.rewrite file bytes).documentAt? path = c.documentAt? path ∧
        (c.rewrite file bytes).misuseAt? path = c.misuseAt? path := by
    have hread : (c.rewrite file bytes).readDocument c.schemaLookup path =
        c.readDocument c.schemaLookup path :=
      readDocument_rewrite bytes hne (fun textFile _ => findSchema?_rewrite bytes _ _)
        fun textFile hvalue hcontent hfound => htakes path hp ⟨textFile, hvalue, hcontent, hfound⟩
    have hschemas := schemaLookup_rewrite bytes hschema
    constructor
    · rw [documentAt?, documentAt?, hschemas, hread]
    · rw [misuseAt?, misuseAt?, hschemas, hread]
  have hnone : ∀ path ∈ (c.rewrite file bytes).textFiles,
      (c.rewrite file bytes).misuseAt? path = none := by
    rw [textFiles_rewrite]
    intro path hp
    by_cases hne : path = file
    · rw [hne]
      exact (documentAt?_of_json_fault hself).2
    · exact (hother path hp hne).2.trans (hmisuse path hp)
  have hdocuments : c.textFiles.filterMap (c.rewrite file bytes).documentAt? =
      (c.textFiles.filter (· ≠ file)).filterMap c.documentAt? := by
    rw [List.filterMap_filter]
    refine List.filterMap_congr fun path hp => ?_
    by_cases hne : path = file
    · rw [if_neg (by simp [hne]), hne, (documentAt?_of_json_fault hself).1]
    · rw [if_pos (by simp [hne]), (hother path hp hne).1]
  rw [documents_eq_of_misuseAt? ((missing?_rewrite c file bytes).trans hdirectories) hnone,
    textFiles_rewrite, hdocuments]

/-- Bytes of a schema file that give no titles: they are no JSON, or hold no schema. -/
def GivesNoTitles (c : Corpus) (bytes : ByteArray) : Prop :=
  c.machine.jsonOf bytes = .error (.json .malformed) ∨
    ∃ value, c.machine.jsonOf bytes = .ok value ∧ value.schemaTitles = []

/-- A schema file that gives no titles costs its own titles. -/
theorem exists_schemaLookup_rewrite (h : ∀ path ∈ c.schemaFiles, c.GoodTitles path)
    (hfile : file ∈ c.schemaFiles) (hbytes : c.GivesNoTitles bytes) :
    ∃ table, (c.rewrite file bytes).schemaLookup = .ok table ∧ ∀ key, table.lookup key =
      (c.schemaFiles.filter (· ≠ file)).find? fun path => key ∈ c.titleKeys path := by
  have hself := readJson_rewrite_self c file bytes (h file hfile).isSome_bytes?
  -- the titles of the file are good, because there are none
  have hnone : (c.rewrite file bytes).GoodTitles file ∧
      (c.rewrite file bytes).titleKeys file = [] := by
    rw [GoodTitles, titleKeys, hself]
    rcases hbytes with hb | ⟨value, hb, htitles⟩
    · rw [hb]
      exact ⟨.inl rfl, rfl⟩
    · rw [hb]
      refine ⟨.inr ⟨value, rfl, fun title ht => ?_⟩, ?_⟩
      · rw [htitles] at ht
        cases ht
      · show value.schemaTitles.filterMap Json.titleKey? = []
        rw [htitles, List.filterMap_nil]
  have hgood : ∀ path ∈ (c.rewrite file bytes).schemaFiles,
      (c.rewrite file bytes).GoodTitles path := by
    rw [schemaFiles_rewrite]
    intro path hp
    by_cases hne : path = file
    · exact hne ▸ hnone.1
    · rw [GoodTitles, readJson_rewrite_of_ne bytes hne]
      exact h path hp
  obtain ⟨table, htable, hlookup⟩ := exists_schemaLookup hgood
  refine ⟨table, htable, fun key => ?_⟩
  rw [hlookup, schemaFiles_rewrite, List.find?_filter]
  refine List.find?_congr fun path _ => ?_
  by_cases hne : path = file
  · simp [hne, hnone.2]
  · simp [hne, titleKeys_rewrite bytes hne]

/-- The first item with a property stays the first when another item is taken out. -/
theorem find?_filter_ne {α : Type} [DecidableEq α] {as : List α} {p : α → Bool} {a : α}
    (h : as.find? p ≠ some a) : (as.filter (· ≠ a)).find? p = as.find? p := by
  rw [List.find?_filter]
  induction as with
  | nil => rfl
  | cons b as ih =>
    cases hb : p b with
    | true =>
      have hne : b ≠ a := fun he => h (by rw [List.find?_cons_of_pos hb, he])
      rw [List.find?_cons_of_pos (by simp [hne, hb]), List.find?_cons_of_pos hb]
    | false =>
      rw [List.find?_cons_of_neg (by simp [hb])] at h
      rw [List.find?_cons_of_neg (by simp [hb]), List.find?_cons_of_neg (by simp [hb]), ih h]

/-- A schema file that gives no titles costs no document of a text file that is not read with it. -/
theorem documentAt?_rewrite (h : c.WellKinded) (hl : c.WithinLimits) (hfile : file ∈ c.schemaFiles)
    (hbytes : c.GivesNoTitles bytes) (hp : path ∈ c.textFiles) (hne : path ≠ file)
    (htakes : ¬ c.Takes path file) :
    (c.rewrite file bytes).documentAt? path = c.documentAt? path ∧
      (c.rewrite file bytes).misuseAt? path = none := by
  obtain ⟨table, htable, hlookup⟩ := exists_schemaLookup h.titles
  obtain ⟨other, hother, hotherlookup⟩ := exists_schemaLookup_rewrite h.titles hfile hbytes
  have hagree (key : Text) (hkey : table.lookup key ≠ some file) :
      other.lookup key = table.lookup key := by
    rw [hlookup] at hkey ⊢
    rw [hotherlookup, find?_filter_ne hkey]
  by_cases hempty : ∃ textFile, c.readJson path = .ok (.object textFile) ∧
      textFile.lookup "text".toList = none
  · -- another schema file may be found now, but there is no text to be read with it
    obtain ⟨textFile, hvalue, hcontent⟩ := hempty
    have hvalue' : (c.rewrite file bytes).readJson path = .ok (.object textFile) :=
      (readJson_rewrite_of_ne bytes hne).trans hvalue
    rw [documentAt?_of_lookup_text hvalue hcontent, documentAt?_of_lookup_text hvalue' hcontent]
    refine ⟨rfl, misuseAt?_of_passable ?_⟩
    unfold readDocument
    rw [hvalue', hother]
    refine (passable_findSchema? (.ok other) fun title => h.nullOrText_of_mem hp hvalue).bind
      fun found _ => ?_
    rw [hcontent]
    cases found <;> exact .ok none
  · have hread : (c.rewrite file bytes).readDocument (c.rewrite file bytes).schemaLookup path =
        c.readDocument c.schemaLookup path := by
      rw [hother, htable]
      have hfound (textFile : Fields) (hvalue : c.readJson path = .ok (.object textFile)) :
          c.findSchema? (.ok table) (c.searchTitles path textFile) ≠ .ok (some file) := fun hf =>
        htakes ⟨textFile, hvalue,
          Option.isSome_iff_ne_none.2 fun hn => hempty ⟨textFile, hvalue, hn⟩, htable ▸ hf⟩
      exact readDocument_rewrite bytes hne
        (fun textFile hvalue => findSchema?_rewrite_of_lookup bytes hagree (hfound textFile hvalue))
        fun textFile hvalue _ => hfound textFile hvalue
    have hmisuse := misuseAt?_eq_none h hl hp
    rw [misuseAt?] at hmisuse
    rw [documentAt?, documentAt?, misuseAt?, hread]
    exact ⟨rfl, hmisuse⟩

/-- **What a schema file without titles costs**: its own titles, and none but the documents of text
files that were read with it. -/
structure CostsTitles (c : Corpus) (file : Path) (bytes : ByteArray) : Prop where
  table : ∃ table, (c.rewrite file bytes).schemaLookup = .ok table ∧ ∀ key, table.lookup key =
    (c.schemaFiles.filter (· ≠ file)).find? fun path => key ∈ c.titleKeys path
  documents : ∀ path ∈ c.textFiles, path ≠ file → ¬ c.Takes path file →
    (c.rewrite file bytes).documentAt? path = c.documentAt? path ∧
      (c.rewrite file bytes).misuseAt? path = none

/-- **No file stands in the way of another.** -/
structure EachForItself (c : Corpus) : Prop where
  /-- Every text file that gives a document has it among those of the corpus, in order, and the
  reading comes to its end. -/
  documents : c.documents = (c.textFiles.filterMap c.documentAt?, none)
  /-- A title leads to the first schema file that has its key. -/
  table : ∃ table, c.schemaLookup = .ok table ∧
    ∀ key, table.lookup key = c.schemaFiles.find? fun path => key ∈ c.titleKeys path
  /-- When a text file is no JSON any more, its own document is missing. -/
  badText : ∀ file bytes fault, file ∈ c.textFiles → file ∉ c.schemaFiles →
    (∀ path ∈ c.textFiles, ¬ c.Takes path file) → c.machine.jsonOf bytes = .error (.json fault) →
      (c.rewrite file bytes).documents =
        ((c.textFiles.filter (· ≠ file)).filterMap c.documentAt?, none)
  /-- When a schema file is no JSON any more, or gives no titles, its own titles are missing. -/
  badSchema : ∀ file bytes, file ∈ c.schemaFiles → c.GivesNoTitles bytes → c.CostsTitles file bytes

/-- **A corpus with all its directories.** What its files write are characters: half a surrogate pair is
none, and no text can hold it. -/
structure Readable (c : Corpus) : Prop where
  directories : c.missing? = none
  characters : ∀ path bytes, c.tree.bytes? path = some bytes →
    Json.escapesHalf (Text.decodeFile c.machine.codecs bytes) = false

/-- **What is read from a corpus with all its directories.** Its text files give their documents in
order, up to the first whose reading ends in a misuse. When the values in the files are of the right
kinds, and memory and stack suffice for them, no reading does, and no file stands in the way of
another. -/
theorem documents_of_directories (c : Corpus) (hreadable : c.Readable) :
    c.documents =
        ((c.textFiles.takeWhile fun path => (c.misuseAt? path).isNone).filterMap c.documentAt?,
          (c.textFiles.findSome? c.misuseAt?).map .misuse) ∧
      (c.WellKinded → c.WithinLimits → c.EachForItself) := by
  have hdirectories := hreadable.directories
  refine ⟨documents_eq hdirectories, fun h hl => ?_⟩
  have hmisuse (path : Path) (hp : path ∈ c.textFiles) : c.misuseAt? path = none :=
    misuseAt?_eq_none h hl hp
  exact {
    documents := documents_eq_of_misuseAt? hdirectories hmisuse
    table := exists_schemaLookup h.titles
    badText := fun _ _ _ => documents_rewrite hdirectories hmisuse
    badSchema := fun _ _ hfile hbytes => {
      table := exists_schemaLookup_rewrite h.titles hfile hbytes
      documents := fun _ => documentAt?_rewrite h hl hfile hbytes } }

/-! ### A corpus with one book -/

/-- The paths of a schema file, of the text file it belongs to, and of another text file. -/
def ruthSchemaPath : Path := ["schemas".toList, "Ruth.json".toList]

@[inherit_doc ruthSchemaPath]
def ruthTextPath : Path := ["json".toList, "Ruth".toList, "merged.json".toList]

@[inherit_doc ruthSchemaPath]
def otherTextPath : Path := ["json".toList, "List".toList, "merged.json".toList]

/-- **A corpus with one book**, and with another text file that comes before the one of the book. -/
def ruthCorpus (other : ByteArray) (machine : Machine) : Corpus := locate {
  name := "root".toList
  files := [
    (ruthSchemaPath, Text.encodeUtf8 "\x7b\"schema\":\x7b\"title\":\"Ruth\"\x7d\x7d".toList),
    (otherTextPath, other),
    (ruthTextPath, Text.encodeUtf8 "\x7b\"title\":\"Ruth\",\"text\":[\"a\"]\x7d".toList)]
  directories := [] } {} machine

/-- The members of the schema file of the book. -/
def ruthSchema : Fields := [("schema".toList, .object [("title".toList, .text "Ruth".toList)])]

/-- The members of the text file of the book. -/
def ruthText : Fields :=
  [("title".toList, .text "Ruth".toList), ("text".toList, .array [.text "a".toList])]

/-- The characters of code units of two bytes, the lower byte first; surrogates are not read. -/
def utf16Text : List UInt8 → Option Text
  | [] => some []
  | low :: high :: bytes =>
    let code := low.toNat + 256 * high.toNat
    if Json.isSurrogate code then none else (utf16Text bytes).map (Char.ofNat code :: ·)
  | _ => none

/-- A detector that knows the byte order mark of UTF-16, and a machine that reads texts with few
brackets and asks for names of at most 255 characters. -/
def utf16Machine : Machine where
  codecs.guess bytes :=
    if bytes.data.toList.take 2 = [0xff, 0xfe] then ⟨some "UTF-16".toList, true⟩ else ⟨none, false⟩
  codecs.decode encoding bytes :=
    if encoding = "UTF-16".toList then utf16Text (bytes.data.toList.drop 2) else none
  reads s := s.countP (fun c => c = '[' || c = '\x7b') ≤ 900
  makes _ schemaFile := schemaFile.length ≤ 100
  reaches path := path.all (·.length ≤ 255)

/-- A list that is begun and not ended, in UTF-16. -/
def brokenList : ByteArray := ⟨#[0xff, 0xfe, 0x5b, 0x00]⟩

/-- The corpus with the broken list in place of another book. -/
def brokenCorpus : Corpus := ruthCorpus brokenList utf16Machine

/-- The value of a file that was written in UTF-8. -/
theorem readJson_of_bytes? {s : Text} (h : c.tree.bytes? path = some (Text.encodeUtf8 s))
    (hreads : c.machine.reads (Text.unifyLineEnds (Text.dropByteOrderMark s)) = true) :
    c.readJson path =
      (Json.parse (Text.unifyLineEnds (Text.dropByteOrderMark s))).mapError SourceFault.json := by
  simp only [readJson, h, Machine.jsonOf, Text.decodeFile_encodeUtf8, hreads, if_true]

/-- What is read of the three files. -/
theorem readJson_brokenCorpus :
    brokenCorpus.readJson ruthSchemaPath = .ok (.object ruthSchema) ∧
      brokenCorpus.readJson ruthTextPath = .ok (.object ruthText) ∧
        brokenCorpus.readJson otherTextPath = .error (.json .malformed) :=
  ⟨(readJson_of_bytes? rfl rfl).trans rfl, (readJson_of_bytes? rfl rfl).trans rfl, rfl⟩

/-- What is found of the files and titles of the corpus. -/
theorem files_brokenCorpus :
    brokenCorpus.schemaFiles = [ruthSchemaPath] ∧
      brokenCorpus.textFiles = [otherTextPath, ruthTextPath] ∧
        (brokenCorpus.findSchema? brokenCorpus.schemaLookup
          (brokenCorpus.searchTitles ruthTextPath ruthText)).toOption =
            some (some ruthSchemaPath) := by
  decide +kernel

/-- The broken list is read with no schema file, and the book with its own. -/
theorem eq_of_takes_brokenCorpus {schemaPath : Path} (hp : path ∈ brokenCorpus.textFiles)
    (h : brokenCorpus.Takes path schemaPath) :
    path = ruthTextPath ∧ schemaPath = ruthSchemaPath := by
  obtain ⟨-, htext, hother⟩ := readJson_brokenCorpus
  obtain ⟨-, htexts, hfound⟩ := files_brokenCorpus
  obtain ⟨textFile, hread, -, hfind⟩ := h
  rw [htexts] at hp
  rcases List.mem_pair.1 hp with rfl | rfl
  · rw [hother] at hread
    cases hread
  · rw [htext] at hread
    injection hread with hread
    injection hread with hread
    subst hread
    rw [hfind] at hfound
    injection hfound with hfound
    injection hfound with hfound
    exact ⟨rfl, hfound⟩

/-- The files of the corpus write characters. -/
theorem readable_brokenCorpus : brokenCorpus.Readable := by
  refine ⟨by decide +kernel, fun path bytes h => Json.escapesHalf_eq_false ?_⟩
  have hall : ∀ file ∈ brokenCorpus.tree.files,
      '\\' ∉ Text.decodeFile brokenCorpus.machine.codecs file.2 := by decide +kernel
  exact hall (path, bytes) (FileTree.mem_files_of_bytes? h)

/-- The values in the corpus are of the right kinds, although one text file is no JSON. -/
theorem wellKinded_brokenCorpus : brokenCorpus.WellKinded := by
  obtain ⟨hschema, htext, hother⟩ := readJson_brokenCorpus
  obtain ⟨hschemas, htexts, -⟩ := files_brokenCorpus
  refine ⟨fun path hp => ?_, fun path value hp hv => ?_, fun path schemaPath value hp ht hv => ?_⟩
  · rw [hschemas, List.mem_singleton] at hp
    subst hp
    refine .inr ⟨_, hschema, fun title ht => ?_⟩
    rcases List.mem_pair.1 ht with rfl | rfl
    · exact .inr ⟨_, rfl⟩
    · exact .inl rfl
  · rw [htexts] at hp
    rcases List.mem_pair.1 hp with rfl | rfl
    · rw [hother] at hv
      cases hv
    · rw [htext] at hv
      injection hv with hv
      exact ⟨ruthText, hv.symm, .inr ⟨_, rfl⟩, .inl rfl⟩
  · obtain ⟨rfl, rfl⟩ := eq_of_takes_brokenCorpus hp ht
    rw [hschema] at hv
    injection hv with hv
    refine ⟨ruthSchema, hv.symm, ⟨?_, .inl rfl, ?_, .inl rfl⟩⟩
    · exact .node (fun _ => ⟨.inl rfl, by decide⟩) (.inl rfl) fun _ _ h => nomatch h
    · intro members _ _ _ _ hm hmem
      injection hm with hm
      subst hm
      cases hmem

/-- The machine suffices for the corpus. -/
theorem withinLimits_brokenCorpus : brokenCorpus.WithinLimits := by
  have hall : ∀ file ∈ brokenCorpus.tree.files, brokenCorpus.machine.reads
      (Text.decodeFile brokenCorpus.machine.codecs file.2) = true := by decide +kernel
  have hfits (path : Path) : brokenCorpus.Fits path := fun bytes h =>
    hall (path, bytes) (FileTree.mem_files_of_bytes? h)
  refine ⟨fun path _ => hfits path, fun _ schemaPath _ _ => hfits schemaPath, ?_⟩
  intro path schemaPath textFile schemaFile hp ht _ hread
  obtain ⟨-, rfl⟩ := eq_of_takes_brokenCorpus hp ht
  rw [readJson_brokenCorpus.1] at hread
  injection hread with hread
  injection hread with hread
  subst hread
  rfl

/-- The book is read, and the text file that is no JSON is passed over. -/
theorem documents_of_directories_ruthCorpus :
    brokenCorpus.Readable ∧ brokenCorpus.WellKinded ∧ brokenCorpus.WithinLimits ∧
      brokenCorpus.documents.1.map (·.titleEn) = ["Ruth".toList] ∧
        brokenCorpus.documents.2 = none := by
  have heach := (documents_of_directories brokenCorpus readable_brokenCorpus).2
    wellKinded_brokenCorpus withinLimits_brokenCorpus
  refine ⟨readable_brokenCorpus, wellKinded_brokenCorpus, withinLimits_brokenCorpus, ?_, ?_⟩
  · rw [heach.documents]
    decide +kernel
  · rw [heach.documents]

/-- The corpus with an empty list in place of another book. -/
def listCorpus : Corpus := ruthCorpus (Text.encodeUtf8 "[]".toList) .plain

/-- **A list in place of an object ends the reading**: the book behind it gives a document, which is
not among those of the corpus. -/
theorem documents_listCorpus :
    listCorpus.missing? = none ∧
      (listCorpus.textFiles.filterMap listCorpus.documentAt?).map (·.titleEn) = ["Ruth".toList] ∧
        listCorpus.documents.1.map (·.titleEn) = [] ∧
          listCorpus.documents.2 = some (.misuse .notObject) := by
  decide +kernel

end Corpus

end HebrewCorpus
