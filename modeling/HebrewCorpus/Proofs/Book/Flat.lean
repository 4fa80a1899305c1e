import HebrewCorpus.Book.Flatten
import HebrewCorpus.Proofs.Import.Numbers
import HebrewCorpus.Proofs.Record.Steps
import HebrewCorpus.Proofs.Schema.Accepted

/-! # Views of a flat book

The lines, headings and references of a flat book are views of one sequence of emissions, so they
agree with each other.

* **`Emission.path?`**: the way to the line that is emitted; `refsFrom_eq` lists the references by
  these ways.
* **`Line.entry?`**: what a line says of its own reference; `map_entry?_linesFrom` compares it with
  the references.
* **`FlatBook.WellFormed`**: the views fit together; `wellFormed_of_flatten` finds them so.
* **`flatten_eq_ok`**: every accepted schema can be flattened, whatever the content. -/

namespace HebrewCorpus

/-- **The way to the line that is emitted**, if one is. -/
def Emission.path? : Emission → Option RefPath
  | .line _ path => some path
  | _ => none

/-- **The reference of a line**, as the line itself gives it. -/
def Line.entry? (l : Line) : Option RefEntry :=
  l.ref.bind fun ref => l.heRef.map fun heRef => ⟨ref, heRef, l.index + 1, l.book⟩

namespace FlatBook

/-! ### Lines and references -/

/-- **The references of a sequence** are those of its ways, numbered in their order. -/
theorem refsFrom_eq (book : Int) (n : Nat) (es : List Emission) :
    refsFrom book n es =
      ((es.filterMap Emission.path?).zipIdx n).map fun (p, i) => ⟨p.ref, p.heRef, i + 1, book⟩ := by
  induction es generalizing n with
  | nil => rfl
  | cons e es ih =>
    cases e with
    | heading title level => exact ih n
    | mismatch => exact ih n
    | line content path =>
      rw [refsFrom, ih, List.filterMap_cons]
      rfl

/-- **Lines and references agree**: the lines name the references in their order. -/
theorem map_entry?_linesFrom (book : Int) (n : Nat) (es : List Emission) :
    (linesFrom book n es).map Line.entry? = (refsFrom book n es).map some := by
  induction es generalizing n with
  | nil => rfl
  | cons e es ih =>
    cases e with
    | heading title level => exact ih n
    | mismatch => exact ih n
    | line content path =>
      rw [linesFrom, refsFrom, List.map_cons, List.map_cons, ih]
      rfl

/-- The references and the numbers of lines, in their order. -/
theorem map_refs_linesFrom (book : Int) (n : Nat) (es : List Emission) :
    (linesFrom book n es).map (fun l => (l.ref, l.heRef, l.index)) =
      (refsFrom book n es).map fun e => (some e.ref, some e.heRef, e.lineIndex - 1) := by
  induction es generalizing n with
  | nil => rfl
  | cons e es ih =>
    cases e with
    | heading title level => exact ih n
    | mismatch => exact ih n
    | line content path =>
      rw [linesFrom, refsFrom, List.map_cons, List.map_cons, ih]
      simp

/-- There are as many lines as references. -/
theorem length_linesFrom (book : Int) (n : Nat) (es : List Emission) :
    (linesFrom book n es).length = (refsFrom book n es).length := by
  have h := congrArg List.length (map_entry?_linesFrom book n es)
  rwa [List.length_map, List.length_map] at h

/-- A reference belongs to the book that was flattened. -/
theorem book_of_mem_refsFrom {book : Int} {n : Nat} {es : List Emission} {e : RefEntry}
    (h : e ∈ refsFrom book n es) : e.book = book := by
  rw [refsFrom_eq] at h
  obtain ⟨p, -, rfl⟩ := List.mem_map.1 h
  rfl

/-- A line belongs to the book that was flattened, and has no number in the corpus yet. -/
theorem book_of_mem_linesFrom {book : Int} {n : Nat} {es : List Emission} {l : Line}
    (h : l ∈ linesFrom book n es) : l.book = book ∧ l.id = none := by
  induction es generalizing n with
  | nil => cases h
  | cons e es ih =>
    cases e with
    | heading title level => exact ih h
    | mismatch => exact ih h
    | line content path =>
      rcases List.mem_cons.1 h with rfl | h
      · exact ⟨rfl, rfl⟩
      · exact ih h

/-- **The lines of a sequence are numbered one after the other.** -/
theorem map_index_linesFrom (book : Int) (n : Nat) (es : List Emission) :
    (linesFrom book n es).map (·.index) = numbersFrom n (linesFrom book n es).length := by
  induction es generalizing n with
  | nil => rfl
  | cons e es ih =>
    cases e with
    | heading title level => exact ih n
    | mismatch => exact ih n
    | line content path =>
      rw [linesFrom, List.map_cons, List.length_cons, numbersFrom, ih]
      rfl

/-- A reference counts its line from 1. -/
theorem lineIndex_of_mem_refsFrom {book : Int} {es : List Emission} {e : RefEntry}
    (h : e ∈ refsFrom book 0 es) :
    1 ≤ e.lineIndex ∧ e.lineIndex ≤ (linesFrom book 0 es).length := by
  rw [length_linesFrom]
  rw [refsFrom_eq] at h ⊢
  obtain ⟨⟨p, i⟩, hp, rfl⟩ := List.mem_map.1 h
  have hi := List.snd_lt_of_mem_zipIdx hp
  rw [List.length_map, List.length_zipIdx]
  dsimp only at hi ⊢
  omega

/-! ### Headings -/

/-- No heading stands before the lines that come before the sequence. -/
theorem le_lineIndex_of_mem_headingsFrom {n : Nat} {es : List Emission} {h : Heading}
    (hm : h ∈ headingsFrom n es) : (n : Int) ≤ h.lineIndex := by
  induction es generalizing n with
  | nil => cases hm
  | cons e es ih =>
    cases e with
    | heading title level =>
      rcases List.mem_cons.1 hm with rfl | hm
      · exact Int.le_refl _
      · exact ih hm
    | mismatch => exact ih hm
    | line content path =>
      have := ih hm
      omega

/-- **A flat book whose views fit together.** Lines are numbered from 0, the book's own heading stands
in front of them, and references count them from 1. -/
structure WellFormed (b : FlatBook) : Prop where
  line_book : ∀ l ∈ b.lines, l.book = b.book
  line_id : ∀ l ∈ b.lines, l.id = none
  line_index : b.lines.map (·.index) = numbersFrom 0 b.lines.length
  first_heading : ∃ title rest, b.headings = ⟨title, 0, 0⟩ :: rest
  heading_line : ∀ h ∈ b.headings, 0 ≤ h.lineIndex
  ref_book : ∀ e ∈ b.refs, e.book = b.book
  ref_line : ∀ e ∈ b.refs, 1 ≤ e.lineIndex ∧ e.lineIndex ≤ b.lines.length

end FlatBook

/-! ### Flattening -/

mutual

/-- **An accepted schema can be walked with any content.** -/
theorem emitNode_eq_ok (depth : Nat) (path : RefPath) (content : Json) :
    (schema : SchemaNode) → schema.Accepted → ∃ es, emitNode depth path content schema = .ok es
  | .container name children, h => by
    cases h with
    | container distinct below =>
      unfold emitNode
      cases content with
      | object members => exact emitChildren_eq_ok depth path members children below
      | null | bool | int | real | text | array => exact ⟨_, rfl⟩
  | .leaf name layout, h => by
    cases h with
    | leaf fits =>
      obtain ⟨levels, hl, -⟩ := LeafLayout.levels?_eq_some fits
      exact ⟨emitLeaf levels depth path [] content, by rw [emitNode, hl]⟩

/-- The children of an accepted container can be walked. -/
theorem emitChildren_eq_ok (depth : Nat) (path : RefPath) (members : Fields) :
    (children : List SchemaNode) → (∀ child ∈ children, child.Accepted) →
      ∃ es, emitChildren depth path members children = .ok es
  | [], _ => ⟨[], rfl⟩
  | child :: children, h => by
    have hchild := h child List.mem_cons_self
    obtain ⟨rest, hrest⟩ := emitChildren_eq_ok depth path members children fun c hc =>
      h c (List.mem_cons_of_mem _ hc)
    obtain ⟨unnamed, hunnamed⟩ :=
      emitNode_eq_ok depth path (selectChild child.name members) child hchild
    obtain ⟨named, hnamed⟩ :=
      emitNode_eq_ok (depth + 1) (path.withTitle child.name.title child.name.heTitle)
        (selectChild child.name members) child hchild
    rw [emitChildren, hrest, hunnamed, hnamed]
    split
    · exact ⟨_, rfl⟩
    · split <;> exact ⟨_, rfl⟩

end

section Flattened

variable {schema : SchemaNode} {content : Json} {titleEn titleHe : Text} {book : Int}
variable {flat : FlatBook}

/-- A flattened book is the flat book of its title and of what its content emits. -/
theorem exists_of_flatten_eq_ok (h : flatten schema content titleEn titleHe book = .ok flat) :
    ∃ title es, flat = .ofEmissions book titleEn title (.heading title 0 :: es) := by
  rw [flatten] at h
  obtain ⟨es, -, h⟩ := exists_of_bind_eq_ok h
  exact ⟨_, es, (Except.ok.inj h).symm⟩

/-- **A flattened book is well-formed.** -/
theorem wellFormed_of_flatten (h : flatten schema content titleEn titleHe book = .ok flat) :
    flat.WellFormed := by
  obtain ⟨title, es, rfl⟩ := exists_of_flatten_eq_ok h
  exact
    { line_book := fun l hl => (FlatBook.book_of_mem_linesFrom hl).1
      line_id := fun l hl => (FlatBook.book_of_mem_linesFrom hl).2
      line_index := FlatBook.map_index_linesFrom book 0 es
      first_heading := ⟨title, _, rfl⟩
      heading_line := fun heading hm => FlatBook.le_lineIndex_of_mem_headingsFrom hm
      ref_book := fun e he => FlatBook.book_of_mem_refsFrom he
      ref_line := fun e he => FlatBook.lineIndex_of_mem_refsFrom he }

end Flattened

/-- A book is flattened once its content is walked. -/
theorem flatten_of_emitNode {schema : SchemaNode} {content : Json} {titleEn titleHe : Text}
    {es : List Emission}
    (h : emitNode 1 (.root titleEn (if titleHe.isEmpty then titleEn else titleHe)) content schema =
      .ok es) (book : Int) :
    flatten schema content titleEn titleHe book =
      .ok (.ofEmissions book titleEn (if titleHe.isEmpty then titleEn else titleHe)
        (.heading (if titleHe.isEmpty then titleEn else titleHe) 0 :: es)) := by
  rw [flatten, h]
  rfl

/-- **Every accepted schema can be flattened**, whatever the content. -/
theorem flatten_eq_ok {schema : SchemaNode} (h : schema.Accepted) (content : Json)
    (titleEn titleHe : Text) (book : Int) :
    ∃ flat, flatten schema content titleEn titleHe book = .ok flat := by
  obtain ⟨es, he⟩ :=
    emitNode_eq_ok 1 (.root titleEn (if titleHe.isEmpty then titleEn else titleHe)) content schema h
  exact ⟨_, flatten_of_emitNode he book⟩

end HebrewCorpus
