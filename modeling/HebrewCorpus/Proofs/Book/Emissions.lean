import HebrewCorpus.Proofs.Book.Flat

/-! # What a walk emits, part by part

One equation for each place where a walk goes on: through the items of an array, through the children
of a container, and from a sequence of emissions to the views of a flat book.

* **`emitLeaf_array`**: an array emits what its items emit, each behind its opening.
* **`emitChild`**, **`emitChildren_cons`**: a container emits what its children emit.
* **`Emission.line?`**, **`lineCount`**: the lines of a sequence; `FlatBook.linesFrom_append` and its
  kin put the views of two sequences together. -/

namespace HebrewCorpus

/-! ### Items of an array -/

/-- What opens an item of an array: a heading, above the last level and where the level has one. -/
def itemOpening (level : Level) (levels : List Level) (depth i : Nat) : List Emission :=
  if levels.isEmpty then []
  else ((levelHeading? level (level.kind.labelsAt i)).toList).map (.heading · depth)

/-- What stands in front of an item that is a line: its label, if the lines of its array carry
theirs. -/
def itemLead (level : Level) (levels : List Level) (items : List Json) (i : Nat) : Text :=
  if levels.isEmpty && labelsInline level items then
    '(' :: (level.kind.labelsAt i).hebrew ++ ") ".toList
  else []

/-- An item is opened by one heading at most. -/
theorem itemOpening_cases (level : Level) (levels : List Level) (depth i : Nat) :
    itemOpening level levels depth i = [] ∨
      ∃ title, itemOpening level levels depth i = [.heading title depth] := by
  unfold itemOpening
  split
  · exact .inl rfl
  · cases levelHeading? level (level.kind.labelsAt i) with
    | none => exact .inl rfl
    | some title => exact .inr ⟨title, rfl⟩

/-- **What an array emits**: for each item that is not blank its opening, and what the item itself
emits, one level deeper behind a heading. -/
theorem emitLeaf_array (level : Level) (levels : List Level) (depth : Nat) (path : RefPath)
    (lead : Text) (items : List Json) :
    emitLeaf (level :: levels) depth path lead (.array items) =
      items.zipIdx.flatMap fun (item, i) =>
        if item.isBlank then []
        else itemOpening level levels depth i ++
          emitLeaf levels (depth + (itemOpening level levels depth i).length)
            (path.withAddress (level.kind.labelsAt i)) (itemLead level levels items i) item := by
  rw [emitLeaf]
  refine congrArg List.flatten (List.map_congr_left ?_)
  rintro ⟨item, i⟩ -
  unfold itemOpening itemLead
  dsimp only
  split
  · rfl
  · split
    · simp [*]
    · cases levelHeading? level (level.kind.labelsAt i) <;> simp [*]

/-! ### Children of a container -/

/-- **What one child of a container emits** with its content: nothing when the content is blank, and
a heading first when the child has a title. -/
def emitChild (depth : Nat) (path : RefPath) (content : Json) (child : SchemaNode) :
    Except FlattenFault (List Emission) :=
  if content.isBlank then .ok []
  else if child.name.isDefault then emitNode depth path content child
  else
    (emitNode (depth + 1) (path.withTitle child.name.title child.name.heTitle) content child).map
      (.heading child.name.displayTitle depth :: ·)

/-- What the first child of a container emits stands in front of what the others emit. -/
theorem emitChildren_cons (depth : Nat) (path : RefPath) (members : Fields) (child : SchemaNode)
    (children : List SchemaNode) :
    emitChildren depth path members (child :: children) = do
      let own ← emitChild depth path (selectChild child.name members) child
      return own ++ (← emitChildren depth path members children) := by
  rw [emitChildren, emitChild]
  split
  · rfl
  · split <;> rfl

/-- The children of a container emit something only when each of them does. -/
theorem exists_of_emitChildren_cons {depth : Nat} {path : RefPath} {members : Fields}
    {child : SchemaNode} {children : List SchemaNode} {es : List Emission}
    (h : emitChildren depth path members (child :: children) = .ok es) :
    ∃ own rest, emitChild depth path (selectChild child.name members) child = .ok own ∧
      emitChildren depth path members children = .ok rest ∧ es = own ++ rest := by
  rw [emitChildren_cons] at h
  obtain ⟨own, hown, h⟩ := exists_of_bind_eq_ok h
  obtain ⟨rest, hrest, h⟩ := exists_of_bind_eq_ok h
  cases h
  exact ⟨own, rest, hown, hrest, rfl⟩

/-- **What a child emits** in each of the three ways to stand in a container. -/
theorem emitChild_cases {depth : Nat} {path : RefPath} {content : Json} {child : SchemaNode}
    {own : List Emission} (h : emitChild depth path content child = .ok own) :
    content.isBlank = true ∧ own = [] ∨
      content.isBlank = false ∧
        (child.name.isDefault = true ∧ emitNode depth path content child = .ok own ∨
          child.name.isDefault = false ∧ ∃ below,
            emitNode (depth + 1) (path.withTitle child.name.title child.name.heTitle) content child =
              .ok below ∧ own = .heading child.name.displayTitle depth :: below) := by
  unfold emitChild at h
  split at h
  · next hblank =>
    cases h
    exact .inl ⟨hblank, rfl⟩
  · next hblank =>
    refine .inr ⟨by simpa using hblank, ?_⟩
    split at h
    · next hdefault => exact .inl ⟨hdefault, h⟩
    · next hdefault =>
      refine .inr ⟨by simpa using hdefault, ?_⟩
      revert h
      cases emitNode (depth + 1) (path.withTitle child.name.title child.name.heTitle) content child with
      | error fault => exact fun h => by cases h
      | ok below =>
        intro h
        cases h
        exact ⟨below, rfl, rfl⟩

/-! ### Lines of a sequence -/

/-- The line that is emitted, if one is, and the way to it. -/
def Emission.line? : Emission → Option (Text × RefPath)
  | .line content path => some (content, path)
  | _ => none

/-- The lines of a sequence are those emitted, numbered in their order. -/
theorem FlatBook.linesFrom_eq (book : Int) (n : Nat) (es : List Emission) :
    linesFrom book n es = ((es.filterMap Emission.line?).zipIdx n).map fun ((content, p), i) =>
      ⟨none, book, i, content, some p.ref, some p.heRef⟩ := by
  induction es generalizing n with
  | nil => rfl
  | cons e es ih =>
    cases e with
    | heading title level => exact ih n
    | mismatch => exact ih n
    | line content path =>
      rw [linesFrom, ih, List.filterMap_cons]
      rfl

/-- **How many lines a sequence has.** -/
def lineCount (es : List Emission) : Nat := (es.filterMap Emission.line?).length

@[simp] theorem lineCount_nil : lineCount [] = 0 := rfl

@[simp] theorem lineCount_heading (title : Text) (level : Nat) (es : List Emission) :
    lineCount (.heading title level :: es) = lineCount es := rfl

@[simp] theorem lineCount_line (content : Text) (path : RefPath) (es : List Emission) :
    lineCount (.line content path :: es) = lineCount es + 1 := rfl

@[simp] theorem lineCount_mismatch (es : List Emission) :
    lineCount (.mismatch :: es) = lineCount es := rfl

@[simp] theorem lineCount_append (es es' : List Emission) :
    lineCount (es ++ es') = lineCount es + lineCount es' := by
  simp [lineCount]

namespace FlatBook

@[simp] theorem length_linesFrom_eq (book : Int) (n : Nat) (es : List Emission) :
    (linesFrom book n es).length = lineCount es := by
  rw [linesFrom_eq, List.length_map, List.length_zipIdx, lineCount]

/-- The lines of a sequence follow those in front of it. -/
theorem linesFrom_append (book : Int) (n : Nat) (es es' : List Emission) :
    linesFrom book n (es ++ es') = linesFrom book n es ++ linesFrom book (n + lineCount es) es' := by
  simp only [linesFrom_eq, List.filterMap_append, List.zipIdx_append, List.map_append, lineCount]

/-- The references of a sequence follow those in front of it. -/
theorem refsFrom_append (book : Int) (n : Nat) (es es' : List Emission) :
    refsFrom book n (es ++ es') = refsFrom book n es ++ refsFrom book (n + lineCount es) es' := by
  induction es generalizing n with
  | nil => rfl
  | cons e es ih =>
    cases e with
    | heading title level => exact ih n
    | mismatch => exact ih n
    | line content path =>
      rw [List.cons_append, refsFrom, ih, refsFrom, lineCount_line, List.cons_append, Nat.add_assoc,
        Nat.add_comm 1]

/-- The headings of a sequence follow those in front of it. -/
theorem headingsFrom_append (n : Nat) (es es' : List Emission) :
    headingsFrom n (es ++ es') = headingsFrom n es ++ headingsFrom (n + lineCount es) es' := by
  induction es generalizing n with
  | nil => rfl
  | cons e es ih =>
    cases e with
    | heading title level =>
      rw [List.cons_append, headingsFrom, ih, headingsFrom, lineCount_heading, List.cons_append]
    | mismatch => exact ih n
    | line content path =>
      rw [List.cons_append, headingsFrom, ih, headingsFrom, lineCount_line, Nat.add_assoc,
        Nat.add_comm 1]

/-- What is left out of two sequences is counted one after the other. -/
@[simp] theorem mismatchCount_append (es es' : List Emission) :
    mismatchCount (es ++ es') = mismatchCount es + mismatchCount es' := List.count_append

/-- A heading leaves nothing out. -/
@[simp] theorem mismatchCount_heading (title : Text) (level : Nat) (es : List Emission) :
    mismatchCount (.heading title level :: es) = mismatchCount es :=
  List.count_cons_of_ne (by simp)

end FlatBook

end HebrewCorpus
