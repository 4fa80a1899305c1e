import HebrewCorpus.Csv.Reader
import HebrewCorpus.Proofs.Text.LineEnds

/-! # Written tables

A table is written with every field between quotation marks, the marks in it doubled, with commas
between the fields and a line end after each record. What is written so is read back field by field,
whatever characters the fields hold.

* **`Csv.quote`**, **`Csv.writeRecord`**, **`Csv.writeTable`**: how tables are written.
* **`Csv.Reader.between`**: the reader between two records.
* **`Csv.readRecords_of_isTable`**: the records that are read back. -/

namespace HebrewCorpus.Csv

/-- The text with each quotation mark doubled. -/
def doubleMarks (s : Text) : Text := Text.replaceChar '"' ['"', '"'] s

/-- **A field between quotation marks**, the marks in it doubled. -/
def quote (s : Text) : Text := '"' :: (doubleMarks s ++ ['"'])

/-- The fields of a record, each between quotation marks, with commas between them. -/
def writeRecord (record : List Text) : Text := Text.joinWith [','] (record.map quote)

/-- **The records of a table, each followed by a line end.** -/
def writeTable (lineEnd : Text) (records : List (List Text)) : Text :=
  records.flatMap fun record => writeRecord record ++ lineEnd

/-- A text of the table, with or without the line end of its last record. -/
def IsTable (lineEnd : Text) (records : List (List Text)) (s : Text) : Prop :=
  s = writeTable lineEnd records ∨ s ++ lineEnd = writeTable lineEnd records

/-! ### Writing -/

/-- A record of one field is that field. -/
theorem writeRecord_singleton (field : Text) : writeRecord [field] = quote field :=
  Text.joinWith_singleton [','] (quote field)

/-- The first field of a record stands before a comma and the others. -/
theorem writeRecord_cons (field : Text) {fields : List Text} (h : fields ≠ []) :
    writeRecord (field :: fields) = quote field ++ ',' :: writeRecord fields := by
  rw [writeRecord, List.map_cons, Text.joinWith_cons [','] _ (by simpa using h), List.append_assoc]
  rfl

/-- A record starts with the mark of its first field. -/
theorem head?_writeRecord_append {record : List Text} (h : record ≠ []) (rest : Text) :
    (writeRecord record ++ rest).head? = some '"' := by
  obtain ⟨field, fields, rfl⟩ := List.exists_cons_of_ne_nil h
  by_cases hfields : fields = []
  · subst hfields
    rw [writeRecord_singleton]
    rfl
  · rw [writeRecord_cons field hfields]
    rfl

/-- A record ends with the mark of its last field. -/
theorem getLast?_append_writeRecord {record : List Text} (h : record ≠ []) (front : Text) :
    (front ++ writeRecord record).getLast? = some '"' := by
  obtain ⟨fields, field, rfl⟩ : ∃ fields field, record = fields ++ [field] :=
    ⟨_, _, (List.dropLast_concat_getLast h).symm⟩
  have hlast : writeRecord (fields ++ [field]) =
      Text.joinWith [','] (fields.map quote ++ ['"' :: doubleMarks field]) ++ ['"'] := by
    rw [← Text.joinWith_concat_append, writeRecord, List.map_append, List.map_singleton, quote]
    rfl
  rw [hlast, ← List.append_assoc, List.getLast?_concat]

/-- The first record of a table is written before the others. -/
theorem writeTable_cons (lineEnd : Text) (record : List Text) (records : List (List Text)) :
    writeTable lineEnd (record :: records) =
      writeRecord record ++ (lineEnd ++ writeTable lineEnd records) := by
  simp [writeTable]

/-- The last record of a table is written behind the others. -/
theorem writeTable_concat (lineEnd : Text) (records : List (List Text)) (record : List Text) :
    writeTable lineEnd (records ++ [record]) =
      writeTable lineEnd records ++ writeRecord record ++ lineEnd := by
  simp [writeTable]

/-- The line end of the last record may be left out, and no other. -/
theorem isTable_concat_iff {lineEnd : Text} {records : List (List Text)} {record : List Text}
    {s : Text} : IsTable lineEnd (records ++ [record]) s ↔
      s = writeTable lineEnd records ++ writeRecord record ++ lineEnd ∨
        s = writeTable lineEnd records ++ writeRecord record := by
  rw [IsTable, writeTable_concat, List.append_cancel_right_eq]

/-- A table starts with a mark, or is empty. -/
theorem head?_writeTable_append (lineEnd : Text) {table : List (List Text)}
    (hne : ∀ record ∈ table, record ≠ []) (rest : Text) :
    (writeTable lineEnd table ++ rest).head? = rest.head? ∨
      (writeTable lineEnd table ++ rest).head? = some '"' := by
  cases table with
  | nil => exact .inl rfl
  | cons record table =>
    right
    rw [writeTable_cons, List.append_assoc,
      head?_writeRecord_append (hne record List.mem_cons_self)]

/-- A text of a table starts with a mark. -/
theorem IsTable.head?_eq {lineEnd s : Text} {table : List (List Text)} (h : IsTable lineEnd table s)
    (htable : table ≠ []) (hne : ∀ record ∈ table, record ≠ []) : s.head? = some '"' := by
  obtain ⟨init, last, rfl⟩ : ∃ init last, table = init ++ [last] :=
    ⟨_, _, (List.dropLast_concat_getLast htable).symm⟩
  rw [List.forall_mem_append, List.forall_mem_singleton] at hne
  have hstart : ∀ rest,
      (writeTable lineEnd init ++ (writeRecord last ++ rest)).head? = some '"' := by
    intro rest
    have hhead := head?_writeTable_append lineEnd hne.1 (writeRecord last ++ rest)
    rwa [head?_writeRecord_append hne.2, or_self] at hhead
  rcases isTable_concat_iff.1 h with rfl | rfl
  · rw [List.append_assoc]
    exact hstart lineEnd
  · have hend := hstart []
    rwa [List.append_nil] at hend

namespace Reader

/-! ### Reading a field -/

section Field

variable {field : Text} {n : Nat} {fields : List Text} {records : List (List Text)}

/-- Within the marks of a field every character but a mark belongs to it. -/
theorem feed_quoted {c : Char} (hc : c ≠ '"') (hn : n < maxFieldLength) :
    feed ⟨.quoted, field, n, fields, records⟩ c =
      ⟨.quoted, c :: field, n + 1, fields, records⟩ := by
  have hstep : step ⟨.quoted, field, n, fields, records⟩ c =
      ⟨.quoted, c :: field, n + 1, fields, records⟩ := by
    simp [step, push, hc, Nat.not_le.2 hn]
  rw [feed, hstep]
  split <;> rfl

/-- Two marks within the marks of a field are one mark of it. -/
theorem feed_feed_mark (hn : n < maxFieldLength) :
    feed (feed ⟨.quoted, field, n, fields, records⟩ '"') '"' =
      ⟨.quoted, '"' :: field, n + 1, fields, records⟩ := by
  simp [feed, step, push, Nat.not_le.2 hn]

/-- **The characters of a field are read back from their written form.** -/
theorem foldl_feed_doubleMarks (s : Text) (h : n + s.length ≤ maxFieldLength) :
    (doubleMarks s).foldl feed ⟨.quoted, field, n, fields, records⟩ =
      ⟨.quoted, s.reverse ++ field, n + s.length, fields, records⟩ := by
  induction s generalizing field n with
  | nil => rfl
  | cons c s ih =>
    rw [List.length_cons] at h
    have hread : (if c = '"' then ['"', '"'] else [c]).foldl feed
        ⟨.quoted, field, n, fields, records⟩ = ⟨.quoted, c :: field, n + 1, fields, records⟩ := by
      by_cases hc : c = '"'
      · subst hc
        exact feed_feed_mark (by omega)
      · rw [if_neg hc]
        exact feed_quoted hc (by omega)
    rw [doubleMarks, Text.replaceChar, List.flatMap_cons, List.foldl_append, hread,
      ← Text.replaceChar, ← doubleMarks, ih (by omega), List.reverse_cons, List.append_assoc,
      List.length_cons, Nat.add_assoc, Nat.add_comm 1]
    rfl

/-- **A field is read back from its written form** wherever one may start. -/
theorem foldl_feed_quote {mode : Mode} (hmode : mode = .recordStart ∨ mode = .fieldStart) (s : Text)
    (h : s.length ≤ maxFieldLength) :
    (quote s).foldl feed ⟨mode, [], 0, fields, records⟩ =
      ⟨.afterQuote, s.reverse, s.length, fields, records⟩ := by
  have hopen : feed ⟨mode, [], 0, fields, records⟩ '"' = ⟨.quoted, [], 0, fields, records⟩ := by
    rcases hmode with rfl | rfl <;> rfl
  rw [quote, List.foldl_cons, hopen, List.foldl_append, foldl_feed_doubleMarks s (by omega),
    List.append_nil, Nat.zero_add]
  rfl

end Field

/-! ### Reading a record -/

/-- **The reader between two records**, when those before are complete. -/
def between (records : List (List Text)) : Reader := ⟨.recordStart, [], 0, [], records⟩

/-- The reader starts before any record. -/
theorem between_nil : between [] = start := rfl

/-- The fields of a record are read back up to the last one, which the reader still holds. -/
theorem foldl_feed_joinWith (fields : List Text) (field : Text) (rest : List Text) {mode : Mode}
    (records : List (List Text)) (hmode : mode = .recordStart ∨ mode = .fieldStart)
    (h : ∀ s ∈ field :: rest, s.length ≤ maxFieldLength) :
    ∃ front last, field :: rest = front ++ [last] ∧
      (writeRecord (field :: rest)).foldl feed ⟨mode, [], 0, fields, records⟩ =
        ⟨.afterQuote, last.reverse, last.length, front.reverse ++ fields, records⟩ := by
  rw [List.forall_mem_cons] at h
  induction rest generalizing field mode fields with
  | nil =>
    refine ⟨[], field, rfl, ?_⟩
    rw [writeRecord_singleton, foldl_feed_quote hmode field h.1]
    rfl
  | cons next rest ih =>
    have hnext : Mode.fieldStart = .recordStart ∨ Mode.fieldStart = .fieldStart := .inr rfl
    obtain ⟨front, last, heq, hread⟩ :=
      ih (field :: fields) next hnext (List.forall_mem_cons.1 h.2)
    refine ⟨field :: front, last, by rw [heq]; rfl, ?_⟩
    have hcomma : feed ⟨.afterQuote, field.reverse, field.length, fields, records⟩ ',' =
        ⟨.fieldStart, [], 0, field :: fields, records⟩ := by
      simp [feed, step, endField, isLineEnd]
    rw [writeRecord_cons field (List.cons_ne_nil next rest), List.foldl_append,
      foldl_feed_quote hmode field h.1, List.foldl_cons, hcomma, hread, List.reverse_cons,
      List.append_assoc]
    rfl

/-- **A record is read back from its written form**, once its line ends. -/
theorem foldl_feed_writeRecord {record : List Text} (records : List (List Text)) (hne : record ≠ [])
    (h : ∀ s ∈ record, s.length ≤ maxFieldLength) :
    let r := (writeRecord record).foldl feed (between records)
    r.feed '\n' = between (record :: records) ∧ r.endLine = between (record :: records) := by
  obtain ⟨field, rest, rfl⟩ := List.exists_cons_of_ne_nil hne
  obtain ⟨front, last, heq, hread⟩ := foldl_feed_joinWith [] field rest records (.inl rfl) h
  dsimp only
  rw [between, hread, heq]
  constructor <;> simp [feed, step, endLine, endField, endRecord, isLineEnd, between]

/-- **The records of a table are read back from its written form.** -/
theorem foldl_feed_writeTable {table : List (List Text)} (records : List (List Text))
    (hne : ∀ record ∈ table, record ≠ [])
    (h : ∀ record ∈ table, ∀ s ∈ record, s.length ≤ maxFieldLength) :
    (writeTable ['\n'] table).foldl feed (between records) =
      between (table.reverse ++ records) := by
  induction table generalizing records with
  | nil => rfl
  | cons record table ih =>
    rw [List.forall_mem_cons] at hne h
    obtain ⟨hend, -⟩ := foldl_feed_writeRecord records hne.1 h.1
    rw [writeTable_cons, List.foldl_append, List.singleton_append, List.foldl_cons, hend,
      ih (record :: records) hne.2 h.2, List.reverse_cons, List.append_assoc]
    rfl

end Reader

/-! ### Uniform line ends -/

/-- The three ways in which a line may end. -/
def lineEnds : List Text := [['\n'], ['\r', '\n'], ['\r']]

/-- A text with doubled marks starts as it did. -/
theorem head?_doubleMarks (s : Text) : (doubleMarks s).head? = s.head? := by
  cases s with
  | nil => rfl
  | cons c s =>
    rw [doubleMarks, Text.replaceChar, List.flatMap_cons]
    split
    · next hc => rw [hc]; rfl
    · rfl

/-- A character that is no mark stays single. -/
theorem doubleMarks_cons {c : Char} (hc : c ≠ '"') (s : Text) :
    doubleMarks (c :: s) = c :: doubleMarks s := by
  rw [doubleMarks, Text.replaceChar, List.flatMap_cons, if_neg hc]
  rfl

/-- Marks may be doubled before or after line ends are made uniform. -/
theorem unifyLineEnds_doubleMarks (s : Text) :
    Text.unifyLineEnds (doubleMarks s) = doubleMarks (Text.unifyLineEnds s) := by
  induction s using Text.lineEndInduction with
  | nil => rfl
  | returnFeed s ih =>
    rw [doubleMarks_cons (by decide), doubleMarks_cons (by decide), Text.unifyLineEnds_returnFeed,
      Text.unifyLineEnds_returnFeed, ih, doubleMarks_cons (by decide)]
  | loneReturn s hs ih =>
    rw [doubleMarks_cons (by decide), Text.unifyLineEnds_loneReturn (by rwa [head?_doubleMarks]),
      Text.unifyLineEnds_loneReturn hs, ih, doubleMarks_cons (by decide)]
  | other c s hc ih =>
    rw [Text.unifyLineEnds_cons hc]
    by_cases hmark : c = '"'
    · subst hmark
      have hdouble : ∀ t, doubleMarks ('"' :: t) = '"' :: '"' :: doubleMarks t := fun _ => rfl
      rw [hdouble, hdouble, Text.unifyLineEnds_cons hc, Text.unifyLineEnds_cons hc, ih]
    · rw [doubleMarks_cons hmark, doubleMarks_cons hmark, Text.unifyLineEnds_cons hc, ih]

/-- A field is made uniform within its marks. -/
theorem unifyLineEnds_quote_append (s rest : Text) :
    Text.unifyLineEnds (quote s ++ rest) =
      quote (Text.unifyLineEnds s) ++ Text.unifyLineEnds rest := by
  rw [quote, List.cons_append, Text.unifyLineEnds_cons (by decide), List.append_assoc,
    List.singleton_append, Text.unifyLineEnds_append_cons (by decide) (by decide),
    unifyLineEnds_doubleMarks, quote, List.cons_append, List.append_assoc, List.singleton_append]

/-- **A record is made uniform field by field.** -/
theorem unifyLineEnds_writeRecord_append (record : List Text) (rest : Text) :
    Text.unifyLineEnds (writeRecord record ++ rest) =
      writeRecord (record.map Text.unifyLineEnds) ++ Text.unifyLineEnds rest := by
  induction record with
  | nil => rfl
  | cons field fields ih =>
    by_cases hfields : fields = []
    · subst hfields
      rw [writeRecord_singleton, unifyLineEnds_quote_append, List.map_singleton,
        writeRecord_singleton]
    · rw [writeRecord_cons field hfields, List.append_assoc, unifyLineEnds_quote_append,
        List.cons_append, Text.unifyLineEnds_cons (by decide), ih, List.map_cons,
        writeRecord_cons (Text.unifyLineEnds field) (by simpa using hfields), List.append_assoc,
        List.cons_append]

/-- A line end of any sort becomes a line feed. -/
theorem unifyLineEnds_lineEnd_append {lineEnd rest : Text} (h : lineEnd ∈ lineEnds)
    (hrest : rest.head? ≠ some '\n') :
    Text.unifyLineEnds (lineEnd ++ rest) = '\n' :: Text.unifyLineEnds rest := by
  simp only [lineEnds, List.mem_cons, List.not_mem_nil, or_false] at h
  obtain rfl | rfl | rfl := h
  · exact Text.unifyLineEnds_cons (by decide) rest
  · exact Text.unifyLineEnds_returnFeed rest
  · exact Text.unifyLineEnds_loneReturn hrest

/-- **A table is made uniform record by record.** -/
theorem unifyLineEnds_writeTable_append {lineEnd rest : Text} (h : lineEnd ∈ lineEnds)
    (hrest : rest.head? ≠ some '\n') (table : List (List Text))
    (hne : ∀ record ∈ table, record ≠ []) :
    Text.unifyLineEnds (writeTable lineEnd table ++ rest) =
      writeTable ['\n'] (table.map (·.map Text.unifyLineEnds)) ++ Text.unifyLineEnds rest := by
  induction table with
  | nil => rfl
  | cons record table ih =>
    rw [List.forall_mem_cons] at hne
    -- what follows the line end is a mark, or the rest
    have hhead : (writeTable lineEnd table ++ rest).head? ≠ some '\n' := by
      rcases head?_writeTable_append lineEnd hne.2 rest with h | h <;> rw [h]
      · exact hrest
      · decide
    rw [writeTable_cons, List.append_assoc, List.append_assoc, unifyLineEnds_writeRecord_append,
      unifyLineEnds_lineEnd_append h hhead, ih hne.2, List.map_cons, writeTable_cons,
      List.append_assoc]
    rfl

/-- **The uniform text of a table** is a text of the table of its uniform fields. -/
theorem isTable_unifyLineEnds {lineEnd s : Text} {table : List (List Text)} (h : lineEnd ∈ lineEnds)
    (hs : IsTable lineEnd table s) (htable : table ≠ []) (hne : ∀ record ∈ table, record ≠ []) :
    IsTable ['\n'] (table.map (·.map Text.unifyLineEnds)) (Text.unifyLineEnds s) := by
  obtain ⟨init, last, rfl⟩ : ∃ init last, table = init ++ [last] :=
    ⟨_, _, (List.dropLast_concat_getLast htable).symm⟩
  rw [List.forall_mem_append, List.forall_mem_singleton] at hne
  have hhead : ∀ rest, (writeRecord last ++ rest).head? ≠ some '\n' := by
    intro rest
    rw [head?_writeRecord_append hne.2]
    decide
  rw [List.map_append, List.map_singleton, isTable_concat_iff]
  rcases isTable_concat_iff.1 hs with rfl | rfl
  · left
    have hlast : Text.unifyLineEnds lineEnd = ['\n'] := by
      have hend := unifyLineEnds_lineEnd_append h (show ([] : Text).head? ≠ some '\n' from nofun)
      rwa [List.append_nil] at hend
    rw [List.append_assoc, unifyLineEnds_writeTable_append h (hhead lineEnd) init hne.1,
      unifyLineEnds_writeRecord_append, hlast, List.append_assoc]
  · right
    have hrecord := unifyLineEnds_writeRecord_append last []
    rw [List.append_nil, Text.unifyLineEnds_nil, List.append_nil] at hrecord
    have hlast := hhead []
    rw [List.append_nil] at hlast
    rw [unifyLineEnds_writeTable_append h hlast init hne.1, hrecord]

/-! ### Reading a table -/

/-- **A written table is read back**, whether or not its last record has a line end. -/
theorem readRecords_of_isTable {table : List (List Text)} {s : Text} (hs : IsTable ['\n'] table s)
    (htable : table ≠ []) (hne : ∀ record ∈ table, record ≠ [])
    (h : ∀ record ∈ table, ∀ field ∈ record, field.length ≤ maxFieldLength) :
    readRecords s = (table, none) := by
  obtain ⟨init, last, rfl⟩ : ∃ init last, table = init ++ [last] :=
    ⟨_, _, (List.dropLast_concat_getLast htable).symm⟩
  rw [List.forall_mem_append, List.forall_mem_singleton] at hne h
  have hinit := Reader.foldl_feed_writeTable [] hne.1 h.1
  obtain ⟨hfeed, hend⟩ := Reader.foldl_feed_writeRecord (init.reverse ++ []) hne.2 h.2
  have hfinish : (s.foldl Reader.feed .start).finish s.getLast? =
      Reader.between (last :: (init.reverse ++ [])) := by
    rcases isTable_concat_iff.1 hs with rfl | rfl
    · rw [List.getLast?_concat, List.foldl_append, List.foldl_append, ← Reader.between_nil, hinit,
        List.foldl_cons, hfeed]
      rfl
    · rw [getLast?_append_writeRecord hne.2, List.foldl_append, ← Reader.between_nil, hinit,
        Reader.finish]
      simp only [Option.isNone_some, hend]
      rfl
  rw [readRecords, hfinish, Reader.between]
  simp

end HebrewCorpus.Csv
