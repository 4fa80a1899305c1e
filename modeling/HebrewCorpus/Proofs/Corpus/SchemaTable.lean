import HebrewCorpus.Proofs.Citation.Lookup
import HebrewCorpus.Proofs.Corpus.SourceValues
import HebrewCorpus.Proofs.Record.Steps

/-! # The table of schema files

A schema file is found by the keys of the two titles in it, and of two files with one key the first
keeps it. A file that is no JSON, or whose value is no object, has no keys and takes none away.

* **`Corpus.titleKeys`**: the keys of the titles of a schema file.
* **`Corpus.GoodTitles`**: what is asked of a schema file, so that the table can be made.
* **`Corpus.exists_schemaLookup`**: a key leads to the first schema file that has it. -/

namespace HebrewCorpus

/-- The key of a value that may be a title. -/
def Json.titleKey? : Json → Option Text
  | .text s => HebrewCorpus.titleKey? s
  | _ => none

/-- A title that is null or a text is read as its key. -/
theorem titleKeyOf_eq {v : Json} (h : v.NullOrText) : titleKeyOf v = .ok v.titleKey? := by
  rcases h with rfl | ⟨s, rfl⟩ <;> rfl

/-- The two titles that the value of a schema file gives. A value that is no object, or has none as
its schema, gives none. -/
def Json.schemaTitles : Json → List Json
  | .object file =>
    match schemaValue file with
    | .object schema => [Fields.get schema "title", Fields.get schema "heTitle"]
    | _ => []
  | _ => []

namespace Corpus

variable {c : Corpus} {path : Path}

/-- The schema files of the corpus, in order. -/
def schemaFiles (c : Corpus) : List Path := c.filesEnding c.schemas ".json"

/-- **The keys of the titles of a schema file**; one that cannot be read has none. -/
def titleKeys (c : Corpus) (path : Path) : List Text :=
  match c.readJson path with
  | .ok value => value.schemaTitles.filterMap Json.titleKey?
  | .error _ => []

/-- **What is asked of a schema file**, so that the table can be made: it is no JSON, or the titles in
it are null or texts. In particular the file is there, its numbers are not too long, and memory and
stack suffice to read it. -/
def GoodTitles (c : Corpus) (path : Path) : Prop :=
  c.readJson path = .error (.json .malformed) ∨
    ∃ value, c.readJson path = .ok value ∧ ∀ title ∈ value.schemaTitles, title.NullOrText

/-- The titles of a file are read from its value, and a malformed file has none. -/
theorem titlesIn_eq (c : Corpus) (path : Path) : c.titlesIn path =
    match c.readJson path with
    | .error (.json .malformed) => .ok []
    | .error fault => .error fault
    | .ok value => .ok value.schemaTitles := by
  unfold titlesIn
  cases c.readJson path with
  | ok value =>
    cases value with
    | object file =>
      show (match schemaValue file with | .object schema => _ | _ => _) = _
      unfold Json.schemaTitles
      cases hs : schemaValue file <;> simp only [hs]
    | _ => rfl
  | error fault =>
    cases fault with
    | json fault => cases fault <;> rfl
    | _ => rfl

/-- Titles that are null or texts are read as their keys. -/
theorem keysIn_of_titlesIn {titles : List Json} (ht : c.titlesIn path = .ok titles)
    (hkind : ∀ title ∈ titles, title.NullOrText) :
    c.keysIn path = .ok ((titles.filterMap Json.titleKey?).map (·, path)) := by
  have hkeys : (titles.mapM fun title => ofChecked (titleKeyOf title)) =
      .ok (titles.map Json.titleKey?) := by
    refine mapM_eq_ok fun title hmem => ?_
    rw [titleKeyOf_eq (hkind title hmem)]
    rfl
  have hentries : (titles.map Json.titleKey?).filterMap (fun key => key.map (·, path)) =
      (titles.filterMap Json.titleKey?).map (·, path) := by
    rw [List.filterMap_map, List.map_filterMap]
    rfl
  rw [keysIn, ht, ← hentries]
  show (titles.mapM (fun title => ofChecked (titleKeyOf title)) >>= _) = _
  rw [hkeys]
  rfl

/-- The keys of a schema file are those of its titles. -/
theorem keysIn_eq (h : c.GoodTitles path) :
    c.keysIn path = .ok ((c.titleKeys path).map (·, path)) := by
  unfold titleKeys
  rcases h with hread | ⟨value, hread, hkind⟩
  · have htitles : c.titlesIn path = .ok [] := by rw [titlesIn_eq, hread]
    rw [hread]
    exact keysIn_of_titlesIn htitles fun _ hmem => nomatch hmem
  · have htitles : c.titlesIn path = .ok value.schemaTitles := by rw [titlesIn_eq, hread]
    rw [hread]
    exact keysIn_of_titlesIn htitles hkind

/-- **A title leads to the first schema file that has its key.** What else is in the files, good or
bad, does not matter. -/
theorem exists_schemaLookup (h : ∀ path ∈ c.schemaFiles, c.GoodTitles path) :
    ∃ table, c.schemaLookup = .ok table ∧
      ∀ key, table.lookup key = c.schemaFiles.find? fun path => key ∈ c.titleKeys path := by
  let entries := c.schemaFiles.map fun path => (c.titleKeys path).map (·, path)
  have hkeys : (c.filesEnding c.schemas ".json").mapM c.keysIn = .ok entries :=
    mapM_eq_ok fun path hp => keysIn_eq (h path hp)
  refine ⟨entries.flatten.foldl (fun found e =>
    if (found.lookup e.1).isSome then found else found ++ [e]) [], ?_, fun key => ?_⟩
  · rw [schemaLookup, hkeys]
    rfl
  · rw [lookup_foldl_first, List.lookup_nil, Option.none_or, ← List.flatMap_def]
    exact (lookup_flatMap_eq_find? c.schemaFiles key).trans Option.map_id_apply

end Corpus

end HebrewCorpus
