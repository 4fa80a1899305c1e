import HebrewCorpus.Proofs.Corpus.Documents

/-! # Files with other bytes

When other bytes are written into one file of a corpus, what is read from the other files stays as
it is, and so do all paths.

* **`FileTree.rewrite`**, **`Corpus.rewrite`**: other bytes in the place of a file's.
* **`Corpus.titleKeys_rewrite`**, **`Corpus.schemaLookup_rewrite`**: the titles of the other schema
  files, and the table when the file is none.
* **`Corpus.readDocument_rewrite`**: the documents of the other text files. -/

namespace HebrewCorpus

namespace FileTree

/-- **A tree with other bytes in one file.** -/
def rewrite (t : FileTree) (file : Path) (bytes : ByteArray) : FileTree :=
  { t with files := t.files.map fun f => if f.1 = file then (f.1, bytes) else f }

variable (t : FileTree) (file : Path) (bytes : ByteArray)

/-- The files keep their paths. -/
theorem paths_rewrite : (t.rewrite file bytes).files.map (·.1) = t.files.map (·.1) := by
  rw [rewrite, List.map_map]
  refine List.map_congr_left fun f _ => ?_
  rw [Function.comp_apply]
  split <;> rfl

/-- The other files keep their bytes, and the file has the new ones. -/
theorem bytes?_rewrite (path : Path) : (t.rewrite file bytes).bytes? path =
    if path = file then (t.bytes? path).map fun _ => bytes else t.bytes? path := by
  rw [bytes?, bytes?, rewrite]
  induction t.files with
  | nil => simp
  | cons f files ih =>
    obtain ⟨at_, old⟩ := f
    rw [List.map_cons, List.lookup_cons]
    by_cases hf : at_ = file
    · subst hf
      by_cases hp : path = at_
      · simp [hp]
      · simpa [hp, List.lookup_cons, beq_false_of_ne hp] using ih
    · by_cases hp : path = at_
      · simp [hp, hf]
      · simpa [hf, List.lookup_cons, beq_false_of_ne hp] using ih

/-- The directories stay. -/
theorem isDirectory_rewrite : (t.rewrite file bytes).isDirectory = t.isDirectory := by
  funext path
  have h := congrArg (List.any · fun q => path.isPrefixOf q && decide (path.length < q.length))
    (paths_rewrite t file bytes)
  simp only [List.any_map] at h
  rw [isDirectory, isDirectory]
  exact congrArg (· || t.directories.any path.isPrefixOf) h

/-- What there is stays there. -/
theorem occurs_rewrite (path : Path) : (t.rewrite file bytes).occurs path = t.occurs path := by
  rw [occurs, occurs, isDirectory_rewrite, bytes?_rewrite]
  split <;> simp

/-- The files below a directory stay. -/
theorem below_rewrite (directory : Path) :
    (t.rewrite file bytes).below directory = t.below directory := by
  rw [below, below, paths_rewrite]

/-- The names in a directory stay. -/
theorem namesIn_rewrite (directory : Path) :
    (t.rewrite file bytes).namesIn directory = t.namesIn directory := by
  rw [namesIn, namesIn, paths_rewrite]
  rfl

end FileTree

namespace Corpus

/-- **A corpus with other bytes in one file.** -/
def rewrite (c : Corpus) (file : Path) (bytes : ByteArray) : Corpus :=
  { c with tree := c.tree.rewrite file bytes }

variable (c : Corpus) (file : Path) (bytes : ByteArray)

/-- The directories of the corpus stay. -/
theorem missing?_rewrite : (c.rewrite file bytes).missing? = c.missing? := by
  simp only [missing?, rewrite, FileTree.isDirectory_rewrite]

/-- The text files stay. -/
theorem textFiles_rewrite : (c.rewrite file bytes).textFiles = c.textFiles := by
  simp only [textFiles, rewrite, FileTree.below_rewrite]

/-- The schema files stay. -/
theorem schemaFiles_rewrite : (c.rewrite file bytes).schemaFiles = c.schemaFiles := by
  simp only [schemaFiles, filesEnding, rewrite, FileTree.namesIn_rewrite]

/-- The file has the value of the new bytes. -/
theorem readJson_rewrite_self (h : (c.tree.bytes? file).isSome) :
    (c.rewrite file bytes).readJson file = c.machine.jsonOf bytes := by
  obtain ⟨old, hold⟩ := Option.isSome_iff_exists.1 h
  simp only [readJson, rewrite, FileTree.bytes?_rewrite, if_pos, hold, Option.map_some]

variable {c file} {path : Path}

/-- The other files keep their values. -/
theorem readJson_rewrite_of_ne (h : path ≠ file) :
    (c.rewrite file bytes).readJson path = c.readJson path := by
  simp only [readJson, rewrite, FileTree.bytes?_rewrite, if_neg h]

/-- The other schema files keep the keys of their titles. -/
theorem titleKeys_rewrite (h : path ≠ file) :
    (c.rewrite file bytes).titleKeys path = c.titleKeys path := by
  simp only [titleKeys, readJson_rewrite_of_ne bytes h]

/-- The other schema files keep what they are found by. -/
theorem keysIn_rewrite (h : path ≠ file) :
    (c.rewrite file bytes).keysIn path = c.keysIn path := by
  simp only [keysIn, titlesIn, readJson_rewrite_of_ne bytes h]

/-- **The table of schema files stays** when the file is none of them. -/
theorem schemaLookup_rewrite (h : file ∉ c.schemaFiles) :
    (c.rewrite file bytes).schemaLookup = c.schemaLookup := by
  have hkeys : (c.rewrite file bytes).schemaFiles.mapM (c.rewrite file bytes).keysIn =
      c.schemaFiles.mapM c.keysIn := by
    rw [schemaFiles_rewrite]
    exact mapM_congr fun path hp => keysIn_rewrite bytes fun he => h (he ▸ hp)
  show ((c.rewrite file bytes).schemaFiles.mapM _ >>= _) = (c.schemaFiles.mapM _ >>= _)
  rw [hkeys]

/-- The schema file of a name stays. -/
theorem schemaNamed?_rewrite : (c.rewrite file bytes).schemaNamed? = c.schemaNamed? := by
  funext title
  simp only [schemaNamed?, rewrite, FileTree.occurs_rewrite, FileTree.isDirectory_rewrite]

/-- The schema file for several titles stays, with the same table. -/
theorem findSchema?_rewrite (schemas : Except SourceFault SchemaTable) (titles : List Json) :
    (c.rewrite file bytes).findSchema? schemas titles = c.findSchema? schemas titles := by
  induction titles with
  | nil => rfl
  | cons title titles ih => simp only [findSchema?, schemaFor?, schemaNamed?_rewrite bytes, ih]

/-! ### Another table -/

variable {table other : SchemaTable}

/-- The schema file for a title stays when it is another one, and the tables differ in the file alone. -/
theorem schemaFor?_rewrite_of_lookup
    (hagree : ∀ key, table.lookup key ≠ some file → other.lookup key = table.lookup key)
    {title : Json} (h : c.schemaFor? (.ok table) title ≠ .ok (some file)) :
    (c.rewrite file bytes).schemaFor? (.ok other) title = c.schemaFor? (.ok table) title := by
  unfold schemaFor? at h ⊢
  rw [schemaNamed?_rewrite bytes]
  rcases hkey : ofChecked (titleKeyOf title) with fault | key
  · rfl
  · cases key with
    | none => rfl
    | some key =>
      rw [hkey] at h
      dsimp only [bind, Except.bind, Except.map] at h ⊢
      have hne : table.lookup key ≠ some file := by
        intro hfile
        rw [hfile] at h
        exact h rfl
      rw [hagree key hne]

/-- The schema file for several titles stays when it is another one, and the tables differ in the file
alone. -/
theorem findSchema?_rewrite_of_lookup
    (hagree : ∀ key, table.lookup key ≠ some file → other.lookup key = table.lookup key)
    {titles : List Json} (h : c.findSchema? (.ok table) titles ≠ .ok (some file)) :
    (c.rewrite file bytes).findSchema? (.ok other) titles = c.findSchema? (.ok table) titles := by
  induction titles with
  | nil => rfl
  | cons title titles ih =>
    unfold findSchema? at h ⊢
    have hfirst : c.schemaFor? (.ok table) title ≠ .ok (some file) := by
      intro hfile
      apply h
      rw [hfile]
      rfl
    rw [schemaFor?_rewrite_of_lookup bytes hagree hfirst]
    rcases hfound : c.schemaFor? (.ok table) title with fault | found
    · rfl
    · cases found with
      | some path => rfl
      | none =>
        rw [hfound] at h
        exact ih h

/-! ### Documents -/

variable {schemas others : Except SourceFault SchemaTable}

/-- **The other text files keep their documents**, when they are read with the same schema files as
before and the file is none of these. -/
theorem readDocument_rewrite (hpath : path ≠ file)
    (hsame : ∀ textFile, c.readJson path = .ok (.object textFile) →
      (c.rewrite file bytes).findSchema? others (c.searchTitles path textFile) =
        c.findSchema? schemas (c.searchTitles path textFile))
    (hother : ∀ textFile, c.readJson path = .ok (.object textFile) →
      (textFile.lookup "text".toList).isSome →
        c.findSchema? schemas (c.searchTitles path textFile) ≠ .ok (some file)) :
    (c.rewrite file bytes).readDocument others path = c.readDocument schemas path := by
  unfold readDocument
  rw [readJson_rewrite_of_ne bytes hpath]
  cases hvalue : c.readJson path with
  | error fault => rfl
  | ok value =>
    cases value with
    | object textFile =>
      show ((c.rewrite file bytes).findSchema? others (c.searchTitles path textFile) >>= _) =
        (c.findSchema? schemas (c.searchTitles path textFile) >>= _)
      rw [hsame textFile hvalue]
      cases hfound : c.findSchema? schemas (c.searchTitles path textFile) with
      | error fault => rfl
      | ok found =>
        cases found with
        | none => rfl
        | some schemaPath =>
          cases hcontent : textFile.lookup "text".toList with
          | none => rfl
          | some content =>
            have hne : schemaPath ≠ file := fun he =>
              hother textFile hvalue (by rw [hcontent]; rfl) (he ▸ hfound)
            show ((c.rewrite file bytes).readJson schemaPath >>= _) =
              (c.readJson schemaPath >>= _)
            rw [readJson_rewrite_of_ne bytes hne]
            rfl
    | _ => rfl

end Corpus

end HebrewCorpus
