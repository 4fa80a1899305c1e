import HebrewCorpus.Proofs.Book.Emissions

/-! # Flattening as a walk

While the schema and the content of a book are walked together, the book grows by one heading or line
at a time. The lists of a leaf are read by index at every array, and its items are labelled by their
positions; a part of the content without the shape that the schema asks for raises a mismatch, which
the step above catches and counts before it goes on. Whatever else goes wrong ends the walk. With an
accepted schema nothing else does: the walk adds what the content emits, and each mismatch that it
raises is counted.

* **`Walk`**, **`WalkFault`**, **`WalkState`**: steps that change a book and may end in a fault.
* **`walkLeaf`**, **`walkNode`**, **`walkChildren`**, **`walkBook`**: the walk.
* **`Walk.Emits`**: the walks that come to their end, by what they add to the book.
* **`emits_walkLeaf`**, **`emits_walkNode`**: what the walk adds, level by level and node by node.
* **`walkBook_eq`**: the walk through a whole book. -/

namespace HebrewCorpus

/-- Why a walk ends before its time. -/
inductive WalkFault
  /-- A part of the content has not the shape that the schema asks for. -/
  | mismatch (mismatch : ShapeMismatch)
  /-- A list is read behind its end. -/
  | outOfRange (index length : Nat)
  /-- A position has no label. -/
  | unlabelled (fault : NumeralFault)
  deriving DecidableEq, Repr

/-- **What a walk changes**: the book, and the mismatches that were raised so far. -/
structure WalkState where
  flat : FlatBook
  raised : List ShapeMismatch
  deriving DecidableEq, Repr

/-- **A walk**: what was added to the book stays there when it ends in a fault. -/
abbrev Walk := ExceptT WalkFault (StateM WalkState)

namespace Walk

/-! ### Steps -/

/-- A walk from a state on. -/
def exec {α : Type} (x : Walk α) (s : WalkState) : Except WalkFault α × WalkState :=
  StateT.run (ExceptT.run x) s

section Exec

variable {α β : Type} {x : Walk α} {a : α} {s t : WalkState}

/-- A walk goes on from where its first step ends. -/
theorem exec_bind_of_ok (h : x.exec s = (.ok a, t)) (f : α → Walk β) :
    (x >>= f).exec s = (f a).exec t := by
  unfold exec at h ⊢
  rw [ExceptT.run_bind, StateT.run_bind, h]
  rfl

/-- A walk that ends in no fault leaves nothing to be handled. -/
theorem exec_tryCatch_of_ok (h : x.exec s = (.ok a, t)) (handle : WalkFault → Walk α) :
    (tryCatch x handle).exec s = (.ok a, t) := by
  unfold exec at h ⊢
  rw [ExceptT.run_tryCatch, StateT.run_bind, h]
  rfl

end Exec

/-- A heading is added. -/
def addHeading (title : Text) (level : Nat) : Walk Unit :=
  modify fun s => { s with
    flat.headings := s.flat.headings ++ [⟨title, level, s.flat.lines.length⟩] }

/-- A line is added, with its reference. -/
def addLine (content : Text) (path : RefPath) : Walk Unit :=
  modify fun s => { s with
    flat.lines := s.flat.lines ++
      [⟨none, s.flat.book, s.flat.lines.length, content, some path.ref, some path.heRef⟩]
    flat.refs := s.flat.refs ++ [⟨path.ref, path.heRef, s.flat.lines.length + 1, s.flat.book⟩] }

/-- A mismatch is raised. -/
def raise {α : Type} (m : ShapeMismatch) : Walk α := do
  modify fun s => { s with raised := s.raised ++ [m] }
  throw (.mismatch m)

/-- **A walk below**: a mismatch that it ends in is caught and counted, any other fault is not. -/
def guarded (x : Walk Unit) : Walk Unit :=
  tryCatch x fun
    | .mismatch _ => modify fun s => { s with flat.mismatches := s.flat.mismatches + 1 }
    | fault => throw fault

/-- The entry of a list at an index. -/
def entryAt {α : Type} (entries : List α) (i : Nat) : Walk α :=
  match entries[i]? with
  | some entry => pure entry
  | none => throw (.outOfRange i entries.length)

/-- Whether a level of a leaf may be referred to. -/
def readFlag (l : LeafLayout) (i : Nat) : Walk Bool :=
  if l.referenceable.isEmpty then pure true else entryAt l.referenceable i

/-- The section name of a level in headings, the Hebrew one first. -/
def readHeading (l : LeafLayout) (i : Nat) : Walk Text := do
  let he ← if l.heSectionNames.isEmpty then pure [] else entryAt l.heSectionNames i
  if Text.isBlank he then return Text.trim (← entryAt l.sectionNames i)
  else return Text.trim he

/-- What the lists of a leaf say of a level. -/
def readLevel (l : LeafLayout) (i : Nat) : Walk Level := do
  let kind ← entryAt l.addressKinds i
  let flag ← readFlag l i
  let heading ← readHeading l i
  return ⟨kind, heading, flag⟩

/-- The labels of a position. -/
def readLabels (kind : AddressKind) (position : Int) : Walk Labels :=
  match kind.labels position with
  | .ok labels => pure labels
  | .error fault => throw (.unlabelled fault)

/-- The content of a child of a container. -/
def readChild (child : NodeName) (content : Json) : Walk Json :=
  match selectChild? child content with
  | .ok own => pure own
  | .error m => raise m

end Walk

open Walk

/-! ### The walk -/

/-- **The walk through the content of a leaf**, with some levels left. -/
def walkLeaf (l : LeafLayout) : (left : Nat) → (depth : Nat) → RefPath → (lead : Text) → Json →
    Walk Unit
  | 0, _, path, lead, content =>
    match content with
    | .text s =>
      if Text.isBlank s then pure () else addLine (lead ++ s.filter (· ≠ '\n')) path
    | _ => raise ⟨path.ref, .text, content.kind⟩
  | left + 1, depth, path, _, content =>
    match content with
    | .array items => do
      let level ← readLevel l (l.depth - (left + 1))
      items.zipIdx.forM fun (item, i) =>
        if item.isBlank then pure ()
        else do
          let labels ← readLabels level.kind (i + 1)
          let path := path.withAddress labels
          if left = 0 then
            guarded (walkLeaf l left depth path
              (if labelsInline level items then '(' :: labels.hebrew ++ ") ".toList else []) item)
          else
            match levelHeading? level labels with
            | some title => do
              addHeading title depth
              guarded (walkLeaf l left (depth + 1) path [] item)
            | none => guarded (walkLeaf l left depth path [] item)
    | _ => raise ⟨path.ref, .array, content.kind⟩

mutual

/-- **The walk through the content of a node.** -/
def walkNode (depth : Nat) (path : RefPath) (content : Json) : SchemaNode → Walk Unit
  | .container _ children =>
    match content with
    | .object _ => walkChildren depth path content children
    | _ => raise ⟨path.ref, .object, content.kind⟩
  | .leaf _ layout => walkLeaf layout layout.depth depth path [] content

/-- The walk through the contents of a container's children, in the order of the schema. -/
def walkChildren (depth : Nat) (path : RefPath) (content : Json) : List SchemaNode → Walk Unit
  | [] => pure ()
  | child :: children => do
    let own ← readChild child.name content
    if own.isBlank then pure ()
    else if child.name.isDefault then guarded (walkNode depth path own child)
    else do
      addHeading child.name.displayTitle depth
      guarded (walkNode (depth + 1) (path.withTitle child.name.title child.name.heTitle) own child)
    walkChildren depth path content children

end

/-- **The walk through a whole book**, from an empty one on. -/
def walkBook (schema : SchemaNode) (content : Json) (titleEn titleHe : Text) (book : Int) :
    Except WalkFault Unit × WalkState :=
  let titleHe := if titleHe.isEmpty then titleEn else titleHe
  exec (do addHeading titleHe 0; guarded (walkNode 1 (.root titleEn titleHe) content schema))
    ⟨⟨book, titleEn, titleHe, [], [], [], 0⟩, []⟩

namespace FlatBook

/-- **The book with more emissions.** -/
def extend (b : FlatBook) (es : List Emission) : FlatBook :=
  { b with
    lines := b.lines ++ linesFrom b.book b.lines.length es
    headings := b.headings ++ headingsFrom b.lines.length es
    refs := b.refs ++ refsFrom b.book b.lines.length es
    mismatches := b.mismatches + mismatchCount es }

/-- No emissions change nothing. -/
theorem extend_nil (b : FlatBook) : b.extend [] = b := by
  simp [extend, linesFrom, headingsFrom, refsFrom, mismatchCount]

/-- **Emissions are added one after the other.** -/
theorem extend_extend (b : FlatBook) (es es' : List Emission) :
    (b.extend es).extend es' = b.extend (es ++ es') := by
  simp [extend, linesFrom_append, headingsFrom_append, refsFrom_append, Nat.add_assoc]

/-- A heading stands behind the headings so far, before the next line. -/
theorem extend_heading (b : FlatBook) (title : Text) (level : Nat) :
    b.extend [.heading title level] =
      { b with headings := b.headings ++ [⟨title, level, b.lines.length⟩] } := by
  simp [extend, linesFrom, headingsFrom, refsFrom, mismatchCount]

/-- A line has the next number, and its reference counts from 1. -/
theorem extend_line (b : FlatBook) (content : Text) (path : RefPath) :
    b.extend [.line content path] =
      { b with
        lines := b.lines ++
          [⟨none, b.book, b.lines.length, content, some path.ref, some path.heRef⟩]
        refs := b.refs ++ [⟨path.ref, path.heRef, b.lines.length + 1, b.book⟩] } := by
  simp [extend, linesFrom, headingsFrom, refsFrom, mismatchCount]

/-- A part that is left out is counted. -/
theorem extend_mismatch (b : FlatBook) :
    b.extend [.mismatch] = { b with mismatches := b.mismatches + 1 } := by
  simp [extend, linesFrom, headingsFrom, refsFrom, mismatchCount]

/-- The flat book of a sequence is the empty book with it. -/
theorem extend_empty (book : Int) (titleEn titleHe : Text) (es : List Emission) :
    (FlatBook.mk book titleEn titleHe [] [] [] 0).extend es = ofEmissions book titleEn titleHe es := by
  simp [extend, ofEmissions]

end FlatBook

namespace Walk

/-! ### Walks that come to their end -/

/-- **A walk that comes to its end** and adds a sequence of emissions to the book, one mismatch among
them for each that was raised. -/
def Emits (x : Walk Unit) (es : List Emission) : Prop :=
  ∀ s, ∃ ms : List ShapeMismatch, ms.length = FlatBook.mismatchCount es ∧
    x.exec s = (.ok (), ⟨s.flat.extend es, s.raised ++ ms⟩)

variable {x y : Walk Unit} {es es' : List Emission}

/-- A walk of no steps adds nothing. -/
theorem emits_pure : Emits (pure ()) [] := by
  intro s
  refine ⟨[], rfl, ?_⟩
  rw [FlatBook.extend_nil, List.append_nil]
  rfl

/-- **A walk behind another** adds its emissions behind those of the other. -/
theorem Emits.bind (hx : Emits x es) (hy : Emits y es') : Emits (x >>= fun _ => y) (es ++ es') := by
  intro s
  obtain ⟨ms, hms, hx⟩ := hx s
  obtain ⟨ms', hms', hy⟩ := hy ⟨s.flat.extend es, s.raised ++ ms⟩
  refine ⟨ms ++ ms', by rw [List.length_append, hms, hms', FlatBook.mismatchCount_append], ?_⟩
  rw [exec_bind_of_ok hx, hy, FlatBook.extend_extend, List.append_assoc]

/-- A heading that is added. -/
theorem emits_addHeading (title : Text) (level : Nat) :
    Emits (addHeading title level) [.heading title level] := by
  intro s
  refine ⟨[], rfl, ?_⟩
  rw [FlatBook.extend_heading, List.append_nil]
  rfl

/-- A line that is added. -/
theorem emits_addLine (content : Text) (path : RefPath) :
    Emits (addLine content path) [.line content path] := by
  intro s
  refine ⟨[], rfl, ?_⟩
  rw [FlatBook.extend_line, List.append_nil]
  rfl

/-- **A mismatch that is raised below** is counted. -/
theorem emits_guarded_raise (m : ShapeMismatch) : Emits (guarded (raise m)) [.mismatch] := by
  intro s
  refine ⟨[m], rfl, ?_⟩
  rw [FlatBook.extend_mismatch]
  rfl

/-- A walk below that comes to its end. -/
theorem Emits.guarded (h : Emits x es) : Emits (guarded x) es := by
  intro s
  obtain ⟨ms, hms, h⟩ := h s
  exact ⟨ms, hms, exec_tryCatch_of_ok h _⟩

/-- **Walks one after the other**, one for each of some values. -/
theorem emits_forM {α : Type} {f : α → Walk Unit} {g : α → List Emission} {as : List α}
    (h : ∀ a ∈ as, Emits (f a) (g a)) : Emits (as.forM f) (as.flatMap g) := by
  induction as with
  | nil => exact emits_pure
  | cons a as ih =>
    exact (h a List.mem_cons_self).bind (ih fun b hb => h b (List.mem_cons_of_mem _ hb))

/-! ### What is read -/

/-- An entry of a list that has it. -/
theorem entryAt_eq {α : Type} {entries : List α} {i : Nat} {entry : α}
    (h : entries[i]? = some entry) : entryAt entries i = pure entry := by
  rw [entryAt, h]

/-- The section name of a level that the lists tell. -/
theorem readHeading_eq {l : LeafLayout} {i : Nat} {heading : Text}
    (h : l.headingName? i = some heading) : readHeading l i = pure heading := by
  -- where the Hebrew name is missing or blank, the other one stands for it
  have fallback (h : l.sectionNames[i]?.map Text.trim = some heading) :
      (do return Text.trim (← entryAt l.sectionNames i)) = (pure heading : Walk Text) := by
    obtain ⟨name, hname, rfl⟩ := Option.map_eq_some_iff.1 h
    rw [entryAt_eq hname, pure_bind]
  unfold LeafLayout.headingName? at h
  unfold readHeading
  split at h
  · next hempty =>
    rw [if_pos hempty, pure_bind]
    exact (if_pos Text.isBlank_nil).trans (fallback h)
  · next hempty =>
    obtain ⟨he, hhe, h⟩ := Option.bind_eq_some_iff.1 h
    rw [if_neg hempty, entryAt_eq hhe, pure_bind]
    split at h
    · next hblank => exact (if_pos hblank).trans (fallback h)
    · next hblank => exact (if_neg hblank).trans (congrArg pure (Option.some.inj h))

/-- **A level that the lists tell** is read off them. -/
theorem readLevel_eq {l : LeafLayout} {i : Nat} {level : Level} (h : l.level? i = some level) :
    readLevel l i = pure level := by
  obtain ⟨kind, hkind, h⟩ := Option.bind_eq_some_iff.1 h
  obtain ⟨flag, hflag, h⟩ := Option.bind_eq_some_iff.1 h
  obtain ⟨heading, hheading, h⟩ := Option.bind_eq_some_iff.1 h
  cases h
  have hread : readFlag l i = pure flag := by
    unfold LeafLayout.isReferenceable? at hflag
    unfold readFlag
    split at hflag
    · next hempty => rw [if_pos hempty, Option.some.inj hflag]
    · next hempty => rw [if_neg hempty, entryAt_eq hflag]
  rw [readLevel, entryAt_eq hkind, pure_bind, hread, pure_bind, readHeading_eq hheading, pure_bind]

/-- **Every item of an array has labels**, as positions count from 1. -/
theorem readLabels_eq (kind : AddressKind) (i : Nat) :
    readLabels kind (i + 1) = pure (kind.labelsAt i) := by
  rw [readLabels, kind.labels_natCast_add_one]

end Walk

/-! ### What the walk adds -/

/-- **The walk through the content of a leaf** with its last levels left adds what the content emits
on these. -/
theorem emits_walkLeaf {l : LeafLayout} {levels : List Level} (hle : levels.length ≤ l.depth)
    (hl : levels.map some = (List.range' (l.depth - levels.length) levels.length).map l.level?)
    (depth : Nat) (path : RefPath) (lead : Text) (content : Json) :
    Emits (guarded (walkLeaf l levels.length depth path lead content))
      (emitLeaf levels depth path lead content) := by
  induction levels generalizing depth path lead content with
  | nil =>
    cases content with
    | text s =>
      rw [List.length_nil, walkLeaf, emitLeaf]
      refine Emits.guarded ?_
      split
      · exact emits_pure
      · exact emits_addLine _ path
    | null | bool | int | real | array | object => exact emits_guarded_raise _
  | cons level levels ih =>
    cases content with
    | array items =>
      -- the level that is read at this array is the first of those left
      have hnext : l.depth - (levels.length + 1) + 1 = l.depth - levels.length := by
        rw [List.length_cons] at hle
        omega
      rw [List.length_cons, List.range'_succ, hnext] at hl
      obtain ⟨hlevel, hbelow⟩ := List.cons_eq_cons.1 hl
      rw [List.length_cons, walkLeaf, emitLeaf_array]
      dsimp only
      rw [readLevel_eq hlevel.symm, pure_bind]
      refine Emits.guarded (emits_forM ?_)
      rintro ⟨item, i⟩ -
      dsimp only
      split
      · exact emits_pure
      · rw [readLabels_eq, pure_bind]
        have hitem := ih (Nat.le_of_succ_le hle) hbelow
        cases levels with
        | nil =>
          -- the last level: the item is a line, with its label where the lines carry theirs
          exact hitem depth _ _ item
        | cons next levels =>
          rw [if_neg (by simp)]
          unfold itemOpening itemLead
          cases levelHeading? level (level.kind.labelsAt i) with
          | none => exact hitem depth _ _ item
          | some title => exact (emits_addHeading title depth).bind (hitem (depth + 1) _ _ item)
    | null | bool | int | real | text | object => exact emits_guarded_raise _

/-- What an accepted leaf emits is what the walk through its levels adds. -/
theorem emits_walkLeaf_of_levels? {l : LeafLayout} {levels : List Level}
    (h : l.levels? = some levels) (depth : Nat) (path : RefPath) (content : Json) :
    Emits (guarded (walkLeaf l l.depth depth path [] content))
      (emitLeaf levels depth path [] content) := by
  have hmap := map_some_of_mapM h
  have hlength : levels.length = l.depth := by
    simpa using congrArg List.length hmap
  have hall : levels.map some =
      (List.range' (l.depth - levels.length) levels.length).map l.level? := by
    rw [hmap, hlength, Nat.sub_self, List.range_eq_range']
  have hwalk := emits_walkLeaf (Nat.le_of_eq hlength) hall depth path [] content
  rwa [hlength] at hwalk

mutual

/-- **The walk through the content of a node** adds what the content emits. -/
theorem emits_walkNode (depth : Nat) (path : RefPath) (content : Json) :
    (schema : SchemaNode) → ∀ {es : List Emission}, emitNode depth path content schema = .ok es →
      Emits (guarded (walkNode depth path content schema)) es
  | .container name children, es, h => by
    unfold emitNode at h
    cases content with
    | object members => exact (emits_walkChildren depth path members children h).guarded
    | null | bool | int | real | text | array =>
      cases h
      exact emits_guarded_raise _
  | .leaf name layout, es, h => by
    rw [emitNode] at h
    split at h
    · next levels hl =>
      cases h
      exact emits_walkLeaf_of_levels? hl depth path content
    · cases h

/-- The walk through the contents of a container's children adds what they emit. -/
theorem emits_walkChildren (depth : Nat) (path : RefPath) (members : Fields) :
    (children : List SchemaNode) → ∀ {es : List Emission},
      emitChildren depth path members children = .ok es →
        Emits (walkChildren depth path (.object members) children) es
  | [], es, h => by
    cases h
    exact emits_pure
  | child :: children, es, h => by
    obtain ⟨own, rest, hown, hrest, rfl⟩ := exists_of_emitChildren_cons h
    have hchildren := emits_walkChildren depth path members children hrest
    rw [walkChildren]
    show Emits (pure (selectChild child.name members) >>= _) _
    rw [pure_bind]
    dsimp only
    rcases emitChild_cases hown with
      ⟨hblank, rfl⟩ | ⟨hblank, ⟨hdefault, hnode⟩ | ⟨hdefault, below, hnode, rfl⟩⟩
    · rw [if_pos hblank]
      exact emits_pure.bind hchildren
    · rw [hblank, if_neg Bool.false_ne_true, if_pos hdefault]
      exact (emits_walkNode depth path _ child hnode).bind hchildren
    · rw [hblank, if_neg Bool.false_ne_true, hdefault, if_neg Bool.false_ne_true]
      have hbelow := emits_walkNode (depth + 1) _ (selectChild child.name members) child hnode
      exact ((emits_addHeading child.name.displayTitle depth).bind hbelow).bind hchildren

end

/-- **The walk through a whole book** with an accepted schema comes to its end, whatever the content.
It leaves the flattened book, and as many mismatches were raised as the book counts. -/
theorem walkBook_eq {schema : SchemaNode} (h : schema.Accepted) (content : Json)
    (titleEn titleHe : Text) (book : Int) :
    ∃ flat raised, flatten schema content titleEn titleHe book = .ok flat ∧
      walkBook schema content titleEn titleHe book = (.ok (), ⟨flat, raised⟩) ∧
        flat.mismatches = raised.length := by
  let he := if titleHe.isEmpty then titleEn else titleHe
  obtain ⟨es, hes⟩ := emitNode_eq_ok 1 (.root titleEn he) content schema h
  have hwalk := (emits_addHeading he 0).bind (emits_walkNode 1 _ content schema hes)
  obtain ⟨ms, hms, hexec⟩ := hwalk ⟨⟨book, titleEn, he, [], [], [], 0⟩, []⟩
  rw [FlatBook.extend_empty] at hexec
  exact ⟨_, ms, flatten_of_emitNode hes book, hexec, hms.symm⟩

end HebrewCorpus
