import HebrewCorpus.Corpus.Reader
import HebrewCorpus.Proofs.Csv.Written

/-! # Written link files

A link file that is written as a table is read back: in the order of its records, one link for each
record that holds both citations. Neither the places of the columns nor the characters of the cells
matter, and the way in which lines end does not show in what is read.

* **`columnName_unifyLineEnds_eq_iff`**, **`cleanCell_unifyLineEnds`**: the names of columns and the
  texts of cells, whatever the line ends in them.
* **`IsColumn`**: the one column of a name.
* **`Corpus.linksOf_table`**: the links that are read back. -/

namespace HebrewCorpus

/-! ### Cells -/

/-- Stripping a cell makes no difference between line ends. -/
theorem alikeButLineEnds_columnName (cell : Text) :
    (columnName cell).AlikeButLineEnds (columnName (Text.unifyLineEnds cell)) := by
  have hcell := Text.alikeButLineEnds_unifyLineEnds cell
  exact (hcell.trimWhere (p := Text.isBlankChar) (by decide)).trimWhere (by decide)

/-- **The name of a column does not depend on line ends**, as long as it holds none. -/
theorem columnName_unifyLineEnds_eq_iff {cell name : Text} (h : ∀ c ∈ name, ¬Text.IsLineEnd c) :
    columnName (Text.unifyLineEnds cell) = name ↔ columnName cell = name := by
  have halike := alikeButLineEnds_columnName cell
  constructor
  · rintro rfl
    exact halike.eq_of_forall h
  · rintro rfl
    exact halike.symm.eq_of_forall h

/-- **The text of a cell does not depend on line ends.** -/
theorem cleanCell_unifyLineEnds (cell : Text) :
    cleanCell (Text.unifyLineEnds cell) = cleanCell cell := by
  rw [cleanCell, cleanCell, Text.squeeze, Text.squeeze, (alikeButLineEnds_columnName cell).words_eq]

/-- The texts of a record's cells do not depend on line ends. -/
theorem cellAt_map_unifyLineEnds (record : List Text) (i : Nat) :
    cellAt (record.map Text.unifyLineEnds) i = cellAt record i := by
  have hclean : cleanCell ∘ Text.unifyLineEnds = cleanCell := by
    funext cell
    rw [Function.comp_apply, cleanCell_unifyLineEnds]
  rw [cellAt, cellAt, List.getElem?_map, Option.map_map, hclean]

/-! ### Tables -/

/-- **The records of a written file are read with uniform line ends.** -/
theorem Csv.readRecords_decodeFile (codecs : Text.Codecs) {lineEnd s : Text}
    {table : List (List Text)} (hend : lineEnd ∈ lineEnds) (hs : IsTable lineEnd table s)
    (htable : table ≠ []) (hne : ∀ record ∈ table, record ≠ [])
    (h : ∀ record ∈ table, ∀ field ∈ record, field.length ≤ maxFieldLength) :
    readRecords (Text.decodeFile codecs (Text.encodeUtf8 s)) =
      (table.map (·.map Text.unifyLineEnds), none) := by
  -- the text starts with a quotation mark, so no byte order mark is taken off
  have hmark : Text.dropByteOrderMark s = s := by
    have hhead := hs.head?_eq htable hne
    obtain ⟨rest, rfl⟩ := List.head?_eq_some_iff.1 hhead
    rfl
  rw [Text.decodeFile_encodeUtf8, hmark]
  refine readRecords_of_isTable (isTable_unifyLineEnds hend hs htable hne) ?_ ?_ ?_
  · simpa using htable
  · simpa using hne
  · intro record hrecord field hfield
    obtain ⟨original, horiginal, rfl⟩ := List.mem_map.1 hrecord
    obtain ⟨cell, hcell, rfl⟩ := List.mem_map.1 hfield
    exact Nat.le_trans (Text.length_unifyLineEnds_le cell) (h original horiginal cell hcell)

/-! ### Columns -/

/-- **The one column of a name.** -/
structure IsColumn (header : List Text) (name : Text) (i : Nat) : Prop where
  place : header[i]?.map columnName = some name
  only : ∀ j, header[j]?.map columnName = some name → j = i

/-- Only the columns that a header has are looked through. -/
instance (header : List Text) (name : Text) (i : Nat) : Decidable (IsColumn header name i) :=
  decidable_of_iff (header[i]?.map columnName = some name ∧
      ∀ j < header.length, header[j]?.map columnName = some name → j = i) <| by
    constructor
    · rintro ⟨hplace, honly⟩
      refine ⟨hplace, fun j hj => honly j ?_ hj⟩
      obtain ⟨cell, hcell, -⟩ := Option.map_eq_some_iff.1 hj
      exact (List.getElem?_eq_some_iff.1 hcell).1
    · rintro ⟨hplace, honly⟩
      exact ⟨hplace, fun j _ hj => honly j hj⟩

/-- A header with a column is not empty. -/
theorem IsColumn.header_ne_nil {header : List Text} {name : Text} {i : Nat}
    (h : IsColumn header name i) : header ≠ [] := by
  rintro rfl
  cases h.place

/-- The place of a name among the names of the columns is that of its one column. -/
theorem IsColumn.idxOf?_eq {header : List Text} {name : Text} {i : Nat}
    (h : IsColumn header name i) :
    (header.map columnName).idxOf? name = some i := by
  have hplace : (header.map columnName)[i]? = some name := by rw [List.getElem?_map, h.place]
  obtain ⟨hi, hname⟩ := List.getElem?_eq_some_iff.1 hplace
  refine List.idxOf?_eq_some_iff.2 ⟨hi, hname, fun j hj hother => ?_⟩
  have hsame : j = i := by
    refine h.only j ?_
    rw [← List.getElem?_map, ← hother, List.getElem?_eq_getElem]
  omega

/-- The place of a name among the names of the columns does not depend on line ends. -/
theorem idxOf?_columnName_unifyLineEnds (header : List Text) {name : Text}
    (h : ∀ c ∈ name, ¬Text.IsLineEnd c) :
    ((header.map Text.unifyLineEnds).map columnName).idxOf? name =
      (header.map columnName).idxOf? name := by
  have hcell : ∀ cell,
      (columnName (Text.unifyLineEnds cell) == name) = (columnName cell == name) := by
    intro cell
    rw [Bool.eq_iff_iff, beq_iff_eq, beq_iff_eq]
    exact columnName_unifyLineEnds_eq_iff h
  show List.findIdx? (· == name) _ = List.findIdx? (· == name) _
  rw [List.map_map, List.findIdx?_map, List.findIdx?_map]
  exact congrArg (header.findIdx? ·) (funext hcell)

namespace LinkColumns

/-- **The places of the columns do not depend on line ends.** -/
theorem of?_map_unifyLineEnds (header : List Text) :
    of? (header.map Text.unifyLineEnds) = of? header := by
  have hsolid : ∀ name ∈ citationColumns.1 :: citationColumns.2 :: labelColumns, ∀ c ∈ name,
      ¬Text.IsLineEnd c := by
    intro name hname
    apply Text.forall_mem_of_all
    revert name
    decide
  have hnames := fun name hname => idxOf?_columnName_unifyLineEnds header (hsolid name hname)
  simp only [labelColumns, List.forall_mem_cons] at hnames
  obtain ⟨hfirst, hsecond, hlabel, hother, -⟩ := hnames
  simp only [of?, labelColumns, List.findSome?_cons, List.findSome?_nil, hfirst, hsecond, hlabel,
    hother]

/-- The places of the columns of a header that has each of them once. -/
theorem of?_eq_some {header : List Text} {i j k : Nat} {label : Text}
    (hfirst : IsColumn header citationColumns.1 i) (hsecond : IsColumn header citationColumns.2 j)
    (hchoice : labelColumns.find? (· ∈ header.map columnName) = some label)
    (hlabel : IsColumn header label k) : of? header = some ⟨i, j, some k⟩ := by
  have hfound : labelColumns.findSome? (header.map columnName).idxOf? = some k := by
    -- a name that is passed over is that of no column
    obtain ⟨-, front, back, hlist, hfront⟩ := List.find?_eq_some_iff_append.1 hchoice
    rw [hlist, List.findSome?_append, List.findSome?_eq_none_iff.2, Option.none_or,
      List.findSome?_cons, hlabel.idxOf?_eq]
    intro name hname
    rw [List.idxOf?_eq_none_iff]
    simpa using hfront name hname
  rw [of?, hfirst.idxOf?_eq, hsecond.idxOf?_eq, hfound]
  rfl

/-- The link of a record does not depend on line ends. -/
theorem link?_map_unifyLineEnds (columns : LinkColumns) (record : List Text) :
    columns.link? (record.map Text.unifyLineEnds) = columns.link? record := by
  have hcell : cellAt (record.map Text.unifyLineEnds) = cellAt record := by
    funext i
    exact cellAt_map_unifyLineEnds record i
  rw [link?, link?, hcell]

/-- **The links of some records** are those of the records that hold both citations. -/
theorem filterMap_link? (i j k : Nat) (records : List (List Text)) :
    records.filterMap (link? ⟨i, j, some k⟩) =
      (records.filter fun r => !(cellAt r i).isEmpty && !(cellAt r j).isEmpty).map
        fun r => ⟨cellAt r i, cellAt r j, cellAt r k⟩ := by
  induction records with
  | nil => rfl
  | cons r records ih =>
    by_cases h : (cellAt r i).isEmpty || (cellAt r j).isEmpty
    · rw [List.filterMap_cons_none (by rw [link?, if_pos h]), ih, List.filter_cons_of_neg]
      simpa [or_iff_not_imp_left] using h
    · rw [List.filterMap_cons_some (by rw [link?, if_neg h]), ih, List.filter_cons_of_pos]
      · rfl
      · simpa using h

end LinkColumns

namespace Corpus

/-- **A link file is read back faithfully.** Where the header has the two columns of citations and
one of labels, each once, at any places and among any others, the links are in order those of the
records that hold both citations. -/
theorem linksOf_table (c : Corpus) (path : Path) {s lineEnd : Text} {header : List Text}
    {rows : List (List Text)} {i j k : Nat} {label : Text}
    (hfile : c.tree.bytes? path = some (Text.encodeUtf8 s))
    (hend : lineEnd ∈ Csv.lineEnds) (hs : Csv.IsTable lineEnd (header :: rows) s)
    (hfirst : IsColumn header citationColumns.1 i) (hsecond : IsColumn header citationColumns.2 j)
    (hchoice : labelColumns.find? (· ∈ header.map columnName) = some label)
    (hlabel : IsColumn header label k)
    (hrows : ∀ row ∈ rows, row.length = header.length)
    (hfields : ∀ record ∈ header :: rows, ∀ field ∈ record, field.length ≤ Csv.maxFieldLength) :
    c.linksOf path = .ok
      ((rows.filter fun row => !(cellAt row i).isEmpty && !(cellAt row j).isEmpty).map
        fun row => ⟨cellAt row i, cellAt row j, cellAt row k⟩) := by
  have hne : ∀ record ∈ header :: rows, record ≠ [] := by
    rw [List.forall_mem_cons]
    refine ⟨hfirst.header_ne_nil, fun row hrow => ?_⟩
    rw [← List.length_pos_iff, hrows row hrow, List.length_pos_iff]
    exact hfirst.header_ne_nil
  have hread := Csv.readRecords_decodeFile c.machine.codecs hend hs
    (List.cons_ne_nil header rows) hne hfields
  have hcolumns : LinkColumns.of? (header.map Text.unifyLineEnds) = some ⟨i, j, some k⟩ := by
    rw [LinkColumns.of?_map_unifyLineEnds]
    exact LinkColumns.of?_eq_some hfirst hsecond hchoice hlabel
  rw [linksOf, hfile]
  simp only [readLinks, hread, List.map_cons, hcolumns]
  rw [← LinkColumns.filterMap_link?, List.filterMap_map]
  refine congrArg (fun f => Except.ok (List.filterMap f rows)) (funext fun row => ?_)
  exact LinkColumns.link?_map_unifyLineEnds _ row

/-- A header whose names are padded, between columns that are not asked for. -/
def paddedHeader : List Text :=
  ["Page", " 'Conection Type' ", "Citation 2\n", "\"Citation 1\"", "Text 1"].map String.toList

/-- Records with commas, quotation marks, line ends and Hebrew letters in their fields, one of them
without its second citation. -/
def crowdedRows : List (List Text) :=
  [["4a", " commentary ", "Rashi,\r\n\"Berakhot\" 2a", "Berakhot\r2a:1\n", "a,b"],
    ["", "midrash", " ' ' ", "Exodus 1:1", "\""],
    ["", "", "רש\"י, ברכות", "'Genesis\t1:1'", ""]].map (·.map String.toList)

/-- The table of these records, without the line end of the last one. -/
def crowdedText : Text :=
  "\"Page\",\" 'Conection Type' \",\"Citation 2\n\",\"\"\"Citation 1\"\"\",\"Text 1\"\r\n".toList ++
    "\"4a\",\" commentary \",\"Rashi,\r\n\"\"Berakhot\"\" 2a\",".toList ++
    "\"Berakhot\r2a:1\n\",\"a,b\"\r\n".toList ++
    "\"\",\"midrash\",\" ' ' \",\"Exodus 1:1\",\"\"\"\"\r\n".toList ++
    "\"\",\"\",\"רש\"\"י, ברכות\",\"'Genesis\t1:1'\",\"\"".toList

/-- A corpus whose only file is that of the table. -/
def crowdedCorpus : Corpus where
  tree := ⟨[], [(["links0.csv".toList], Text.encodeUtf8 crowdedText)], []⟩
  root := []
  texts := []
  schemas := []
  links := []
  machine := .plain

/-- Two of the three records hold both citations. -/
theorem linksOf_table_crowded :
    crowdedCorpus.linksOf ["links0.csv".toList] = .ok
      [⟨"Berakhot 2a:1".toList, "Rashi, \"Berakhot\" 2a".toList, "commentary".toList⟩,
        ⟨"Genesis 1:1".toList, "רש\"י, ברכות".toList, []⟩] := by
  have hfile : crowdedCorpus.tree.bytes? ["links0.csv".toList] =
      some (Text.encodeUtf8 crowdedText) := rfl
  have hs : Csv.IsTable ['\r', '\n'] (paddedHeader :: crowdedRows) crowdedText :=
    .inr (by decide +kernel)
  have hfirst : IsColumn paddedHeader citationColumns.1 3 := by decide
  have hsecond : IsColumn paddedHeader citationColumns.2 2 := by decide
  have hlabel : IsColumn paddedHeader "Conection Type".toList 1 := by decide
  have hread := linksOf_table crowdedCorpus _ hfile (by decide) hs hfirst hsecond (by decide) hlabel
    (by decide) (by decide)
  rw [hread]
  decide +kernel

end Corpus

end HebrewCorpus
