import HebrewCorpus.Proofs.Book.Leaf

/-! # Containers flattened child by child

What a node emits does not depend on where it stands: under other titles and at another depth it
emits the same lines and headings, with these titles in front and as many levels deeper. So a
container can be put together from its children, each of them flattened by itself.

* **`Emission.under`**: an emission moved under a way and a depth; `emitNode_under` moves all that a
  node emits.
* **`FlatBook.attach`**: a flat book with the flat book of one child behind it.
* **`flatten_container`**: a flattened container is the flat books of its children, one attached
  after the other. -/

namespace HebrewCorpus

open Text

/-! ### Ways under ways -/

namespace RefPath

/-- The way that leads nowhere. -/
def start : RefPath := ⟨[], [], [], []⟩

/-- One way, and another one from its end. -/
def followedBy (p q : RefPath) : RefPath :=
  ⟨p.titles ++ q.titles, p.heTitles ++ q.heTitles, p.addresses ++ q.addresses,
    p.heAddresses ++ q.heAddresses⟩

@[simp] theorem followedBy_start (p : RefPath) : p.followedBy start = p := by
  simp [followedBy, start]

/-- A title is added at the end of a way. -/
theorem followedBy_withTitle (p q : RefPath) (title heTitle : Text) :
    p.followedBy (q.withTitle title heTitle) = (p.followedBy q).withTitle title heTitle := by
  simp [followedBy, withTitle]

/-- An address is added at the end of a way. -/
theorem followedBy_withAddress (p q : RefPath) (labels : Labels) :
    p.followedBy (q.withAddress labels) = (p.followedBy q).withAddress labels := by
  simp [followedBy, withAddress]

/-- **Ways that read alike**: all that follows them has the same two references. -/
def ReadsLike (p q : RefPath) : Prop :=
  ∀ rest, (p.followedBy rest).ref = (q.followedBy rest).ref ∧
    (p.followedBy rest).heRef = (q.followedBy rest).heRef

/-- A title behind another reads like both of them in one. -/
theorem phrase_merge (separator : Text) (title next : Text) (titles addresses : List Text) :
    phrase separator (title :: next :: titles) addresses =
      phrase separator ((title ++ ", ".toList ++ next) :: titles) addresses := by
  cases titles with
  | nil => simp [phrase, joinWith_cons]
  | cons t titles => simp [phrase, joinWith_cons]

/-- **A book's title with one more title reads like a book that has both in its title.** -/
theorem readsLike_withTitle (title heTitle next heNext : Text) :
    ((root title heTitle).withTitle next heNext).ReadsLike
      (root (title ++ ", ".toList ++ next)
        (heTitle ++ ", ".toList ++ if heNext.isEmpty then next else heNext)) := by
  intro rest
  exact ⟨phrase_merge .., phrase_merge ..⟩

end RefPath

/-- **An emission moved under a way and a depth.** -/
def Emission.under (depth : Nat) (path : RefPath) : Emission → Emission
  | .heading title level => .heading title (depth + level)
  | .line content way => .line content (path.followedBy way)
  | .mismatch => .mismatch

/-- What opens an item is moved with it. -/
theorem itemOpening_under (level : Level) (levels : List Level) (depth k i : Nat) (path : RefPath) :
    itemOpening level levels (depth + k) i =
      (itemOpening level levels k i).map (.under depth path) := by
  unfold itemOpening
  split
  · rfl
  · cases levelHeading? level (level.kind.labelsAt i) <;> rfl

/-- **What a leaf emits is moved as a whole.** -/
theorem emitLeaf_under (levels : List Level) (depth k : Nat) (path way : RefPath) (lead : Text)
    (content : Json) :
    emitLeaf levels (depth + k) (path.followedBy way) lead content =
      (emitLeaf levels k way lead content).map (.under depth path) := by
  induction levels generalizing k way lead content with
  | nil =>
    cases content with
    | text s =>
      rw [emitLeaf, emitLeaf]
      split <;> rfl
    | null | bool | int | real | array | object => rfl
  | cons level levels ih =>
    cases content with
    | array items =>
      rw [emitLeaf_array, emitLeaf_array, List.map_flatMap]
      refine congrArg List.flatten (List.map_congr_left ?_)
      rintro ⟨item, i⟩ -
      dsimp only
      split
      · rfl
      · rw [List.map_append, ← ih, ← itemOpening_under, itemOpening_under level levels depth k i path,
          List.length_map, Nat.add_assoc, RefPath.followedBy_withAddress]
    | null | bool | int | real | text | object => rfl

mutual

/-- **What a node emits is moved as a whole**, under whatever titles and at whatever depth it
stands. -/
theorem emitNode_under (depth k : Nat) (path way : RefPath) (content : Json) :
    (schema : SchemaNode) →
      emitNode (depth + k) (path.followedBy way) content schema =
        (emitNode k way content schema).map (List.map (.under depth path))
  | .container name children => by
    unfold emitNode
    cases content with
    | object members => exact emitChildren_under depth k path way members children
    | null | bool | int | real | text | array => rfl
  | .leaf name layout => by
    unfold emitNode
    cases layout.levels? with
    | none => rfl
    | some levels => exact congrArg Except.ok (emitLeaf_under levels depth k path way [] content)

/-- What the children of a container emit is moved as a whole. -/
theorem emitChildren_under (depth k : Nat) (path way : RefPath) (members : Fields) :
    (children : List SchemaNode) →
      emitChildren (depth + k) (path.followedBy way) members children =
        (emitChildren k way members children).map (List.map (.under depth path))
  | [] => rfl
  | child :: children => by
    have hchild := emitChild_under depth k path way (selectChild child.name members) child
    have hrest := emitChildren_under depth k path way members children
    rw [emitChildren_cons, emitChildren_cons, hchild, hrest]
    -- a fault of the child, or else of those behind it, stays that fault
    cases emitChild k way (selectChild child.name members) child with
    | error fault => rfl
    | ok own =>
      cases emitChildren k way members children with
      | error fault => rfl
      | ok rest => exact congrArg Except.ok List.map_append.symm

/-- What one child of a container emits is moved as a whole, its heading included. -/
theorem emitChild_under (depth k : Nat) (path way : RefPath) (content : Json) :
    (child : SchemaNode) →
      emitChild (depth + k) (path.followedBy way) content child =
        (emitChild k way content child).map (List.map (.under depth path))
  | child => by
    unfold emitChild
    split
    · rfl
    · split
      · exact emitNode_under depth k path way content child
      · rw [← RefPath.followedBy_withTitle, Nat.add_assoc,
          emitNode_under depth (k + 1) path (way.withTitle child.name.title child.name.heTitle) content
            child]
        cases emitNode (k + 1) (way.withTitle child.name.title child.name.heTitle) content child with
        | error fault => rfl
        | ok below => rfl

end

/-! ### Views of what was moved -/

/-- A line with more lines before it. -/
def Line.shift (before : Nat) (l : Line) : Line := { l with index := l.index + before }

/-- A reference to a line with more lines before it. -/
def RefEntry.shift (before : Nat) (e : RefEntry) : RefEntry :=
  { e with lineIndex := e.lineIndex + before }

/-- A heading some levels deeper, with more lines before it. -/
def Heading.shift (deeper before : Nat) (h : Heading) : Heading :=
  { h with level := h.level + deeper, lineIndex := h.lineIndex + before }

namespace FlatBook

section Moved

variable {p q : RefPath} (book : Int) (depth deeper before n : Nat) (es : List Emission)

/-- **Lines moved under a way that reads alike** differ in their numbers only. -/
theorem linesFrom_under (h : p.ReadsLike q) :
    linesFrom book (n + before) (es.map (.under (depth + deeper) p)) =
      (linesFrom book n (es.map (.under depth q))).map (.shift before) := by
  induction es generalizing n with
  | nil => rfl
  | cons e es ih =>
    cases e with
    | heading title level => exact ih n
    | mismatch => exact ih n
    | line content way =>
      have hrest := ih (n + 1)
      rw [Nat.add_right_comm] at hrest
      simp only [List.map_cons, Emission.under, linesFrom, hrest, Line.shift, (h way).1, (h way).2,
        Int.natCast_add]

/-- References moved under a way that reads alike differ in the numbers of their lines only. -/
theorem refsFrom_under (h : p.ReadsLike q) :
    refsFrom book (n + before) (es.map (.under (depth + deeper) p)) =
      (refsFrom book n (es.map (.under depth q))).map (.shift before) := by
  induction es generalizing n with
  | nil => rfl
  | cons e es ih =>
    cases e with
    | heading title level => exact ih n
    | mismatch => exact ih n
    | line content way =>
      have hrest := ih (n + 1)
      rw [Nat.add_right_comm] at hrest
      simp only [List.map_cons, Emission.under, refsFrom, hrest, RefEntry.shift, (h way).1, (h way).2,
        Int.natCast_add, Int.add_right_comm]

/-- Headings are moved by their levels and by the lines before them, under whatever titles. -/
theorem headingsFrom_under :
    headingsFrom (n + before) (es.map (.under (depth + deeper) p)) =
      (headingsFrom n (es.map (.under depth q))).map (.shift deeper before) := by
  induction es generalizing n with
  | nil => rfl
  | cons e es ih =>
    cases e with
    | heading title level =>
      have hrest := ih n
      simp only [List.map_cons, Emission.under, headingsFrom, hrest, Heading.shift, Int.natCast_add,
        Int.add_right_comm]
    | mismatch => exact ih n
    | line content way =>
      have hrest := ih (n + 1)
      rw [Nat.add_right_comm] at hrest
      exact hrest

/-- What is left out stays left out. -/
@[simp] theorem mismatchCount_under :
    mismatchCount (es.map (.under depth p)) = mismatchCount es := by
  induction es with
  | nil => rfl
  | cons e es ih =>
    unfold mismatchCount at ih ⊢
    cases e <;> simp [Emission.under, ih]

end Moved

/-! ### Books put together -/

/-- A book with nothing but its title. -/
def opening (book : Int) (titleEn titleHe : Text) : FlatBook :=
  ⟨book, titleEn, titleHe, [], [⟨titleHe, 0, 0⟩], [], 0⟩

/-- **The headings that a child brings** from its own book: all but the book's title, and for a child
with a title one of its own above them. -/
def headingsOf (child : NodeName) (part : FlatBook) (before : Nat) : List Heading :=
  if child.isDefault then part.headings.tail.map (.shift 0 before)
  else ⟨child.displayTitle, 1, before⟩ :: part.headings.tail.map (.shift 1 before)

/-- **A flat book with the flat book of a child behind it.** -/
def attach (b : FlatBook) (child : NodeName) (part : FlatBook) : FlatBook :=
  { b with
    lines := b.lines ++ part.lines.map (.shift b.lines.length)
    headings := b.headings ++ headingsOf child part b.lines.length
    refs := b.refs ++ part.refs.map (.shift b.lines.length)
    mismatches := b.mismatches + part.mismatches }

/-- A flat book with the flat books of some children behind it, one after the other. -/
def attachAll (b : FlatBook) : List SchemaNode → List FlatBook → FlatBook
  | child :: children, part :: parts => (b.attach child.name part).attachAll children parts
  | _, _ => b

/-- **Attaching a child's book continues the sequence.** What the child emits in its own book is moved
to where it stands in its container. -/
theorem attach_ofEmissions {p q : RefPath} (h : p.ReadsLike q) (book : Int) (child : NodeName)
    (titleEn titleHe ownTitle ownHeTitle : Text) (es below : List Emission) :
    (ofEmissions book titleEn titleHe es).attach child
        (ofEmissions book ownTitle ownHeTitle (.heading ownHeTitle 0 :: below.map (.under 1 q))) =
      ofEmissions book titleEn titleHe
        (es ++ if child.isDefault then below.map (.under 1 p)
          else .heading child.displayTitle 1 :: below.map (.under 2 p)) := by
  -- what the child emits in its own book, moved behind the lines so far
  have hlines (deeper : Nat) := linesFrom_under book 1 deeper (lineCount es) 0 below h
  have hrefs (deeper : Nat) := refsFrom_under book 1 deeper (lineCount es) 0 below h
  have hheadings (deeper : Nat) :=
    headingsFrom_under (p := p) (q := q) 1 deeper (lineCount es) 0 below
  rw [Nat.zero_add] at hlines hrefs hheadings
  simp only [attach, ofEmissions, mk.injEq, true_and, linesFrom_append, refsFrom_append,
    headingsFrom_append, length_linesFrom_eq, headingsOf, Nat.zero_add, mismatchCount_append,
    mismatchCount_heading, mismatchCount_under]
  split
  · refine ⟨?_, ?_, ?_, ?_⟩
    · exact congrArg _ (hlines 0).symm
    · exact congrArg _ (hheadings 0).symm
    · exact congrArg _ (hrefs 0).symm
    · rw [mismatchCount_under]
  · refine ⟨?_, ?_, ?_, ?_⟩
    · exact congrArg _ (hlines 1).symm
    · exact congrArg _ (congrArg _ (hheadings 1).symm)
    · exact congrArg _ (hrefs 1).symm
    · rw [mismatchCount_heading, mismatchCount_under]

end FlatBook

/-! ### A container and its children -/

namespace NodeName

/-- The title under which a child of a container is flattened by itself. -/
def titleUnder (n : NodeName) (title : Text) : Text :=
  if n.isDefault then title else title ++ ", ".toList ++ n.title

/-- The Hebrew title under which a child of a container is flattened by itself; without one of its
own the English one stands for both. -/
def heTitleUnder (n : NodeName) (heTitle : Text) : Text :=
  if n.isDefault then heTitle
  else heTitle ++ ", ".toList ++ if n.heTitle.isEmpty then n.title else n.heTitle

/-- The way to a child of a container. -/
def wayUnder (n : NodeName) (path : RefPath) : RefPath :=
  if n.isDefault then path else path.withTitle n.title n.heTitle

/-- **The way to a child reads like the start of a book with the child's titles.** -/
theorem readsLike_wayUnder (n : NodeName) (title heTitle : Text) :
    (n.wayUnder (.root title heTitle)).ReadsLike
      (.root (n.titleUnder title) (n.heTitleUnder heTitle)) := by
  unfold wayUnder titleUnder heTitleUnder
  split
  · exact fun rest => ⟨rfl, rfl⟩
  · exact RefPath.readsLike_withTitle _ _ _ _

/-- The Hebrew title of a child stands for itself: where it is empty, so is the English one. -/
theorem heTitleUnder_eq {title heTitle : Text} (h : heTitle.isEmpty → title = heTitle)
    (n : NodeName) :
    (if (n.heTitleUnder heTitle).isEmpty then n.titleUnder title else n.heTitleUnder heTitle) =
      n.heTitleUnder heTitle := by
  unfold heTitleUnder titleUnder
  split
  · split
    · next hempty => exact h hempty
    · rfl
  · simp

end NodeName

/-- The children of a container whose content is not blank. -/
def presentChildren (members : Fields) (children : List SchemaNode) : List SchemaNode :=
  children.filter fun child => !(selectChild child.name members).isBlank

/-- **A child of a container flattened by itself**, under its container's titles and its own. -/
def flattenChild (members : Fields) (titleEn titleHe : Text) (book : Int) (child : SchemaNode) :
    Except FlattenFault FlatBook :=
  flatten child (selectChild child.name members) (child.name.titleUnder titleEn)
    (child.name.heTitleUnder titleHe) book

/-- What a node emits anywhere is what it emits at the start, moved. -/
theorem emitNode_eq_under (depth : Nat) (path : RefPath) (content : Json) (schema : SchemaNode) :
    emitNode depth path content schema =
      (emitNode 0 .start content schema).map (List.map (.under depth path)) := by
  simpa using emitNode_under depth 0 path .start content schema

/-- A node that emits something anywhere emits it at the start too. -/
theorem exists_start_of_emitNode {depth : Nat} {path : RefPath} {content : Json}
    {schema : SchemaNode} {es : List Emission} (h : emitNode depth path content schema = .ok es) :
    ∃ es₀, emitNode 0 .start content schema = .ok es₀ ∧ es = es₀.map (.under depth path) := by
  rw [emitNode_eq_under] at h
  cases hes : emitNode 0 .start content schema with
  | error fault =>
    rw [hes] at h
    cases h
  | ok es₀ =>
    rw [hes] at h
    exact ⟨es₀, rfl, (Except.ok.inj h).symm⟩

/-- **What a child with content emits** is what it emits at the start, moved to its place in the
container. -/
theorem exists_start_of_emitChild {path : RefPath} {content : Json} {child : SchemaNode}
    (hblank : content.isBlank = false) {own : List Emission}
    (h : emitChild 1 path content child = .ok own) :
    ∃ es₀, emitNode 0 .start content child = .ok es₀ ∧
      own = if child.name.isDefault then es₀.map (.under 1 (child.name.wayUnder path))
        else .heading child.name.displayTitle 1 :: es₀.map (.under 2 (child.name.wayUnder path)) := by
  rcases emitChild_cases h with ⟨hb, -⟩ | ⟨-, ⟨hdefault, hown⟩ | ⟨htitled, below, hbelow, rfl⟩⟩
  · rw [hb] at hblank
    cases hblank
  · obtain ⟨es₀, hes, rfl⟩ := exists_start_of_emitNode hown
    refine ⟨es₀, hes, ?_⟩
    rw [if_pos hdefault, NodeName.wayUnder, if_pos hdefault]
  · obtain ⟨es₀, hes, rfl⟩ := exists_start_of_emitNode hbelow
    refine ⟨es₀, hes, ?_⟩
    rw [if_neg (by simp [htitled]), NodeName.wayUnder, if_neg (by simp [htitled])]

section Children

variable {titleEn titleHe : Text}

/-- **A child that emits something can be flattened by itself**, and to emit it is to attach that
book. -/
theorem exists_attach_of_emitChild (h : titleHe.isEmpty → titleEn = titleHe) {content : Json}
    {child : SchemaNode} (hblank : content.isBlank = false) {own : List Emission}
    (hown : emitChild 1 (.root titleEn titleHe) content child = .ok own) (book : Int) :
    ∃ part, flatten child content (child.name.titleUnder titleEn) (child.name.heTitleUnder titleHe)
        book = .ok part ∧
      ∀ es, (FlatBook.ofEmissions book titleEn titleHe es).attach child.name part =
        .ofEmissions book titleEn titleHe (es ++ own) := by
  obtain ⟨es₀, hes, rfl⟩ := exists_start_of_emitChild hblank hown
  have hpart : emitNode 1
      (.root (child.name.titleUnder titleEn) (child.name.heTitleUnder titleHe)) content child =
        .ok (es₀.map (.under 1
          (.root (child.name.titleUnder titleEn) (child.name.heTitleUnder titleHe)))) := by
    rw [emitNode_eq_under, hes]
    rfl
  rw [flatten, child.name.heTitleUnder_eq h, hpart]
  exact ⟨_, rfl, fun es => FlatBook.attach_ofEmissions
    (child.name.readsLike_wayUnder titleEn titleHe) book child.name titleEn titleHe _ _ es es₀⟩

/-- **What the children emit is attached book by book.** -/
theorem exists_attach_of_emitChildren (h : titleHe.isEmpty → titleEn = titleHe) {members : Fields}
    {children : List SchemaNode} {own : List Emission}
    (hown : emitChildren 1 (.root titleEn titleHe) members children = .ok own) (book : Int)
    (es : List Emission) :
    ∃ parts, (presentChildren members children).mapM (flattenChild members titleEn titleHe book) =
        .ok parts ∧
      (FlatBook.ofEmissions book titleEn titleHe es).attachAll (presentChildren members children)
          parts =
        .ofEmissions book titleEn titleHe (es ++ own) := by
  induction children generalizing own es with
  | nil =>
    cases hown
    exact ⟨[], rfl, by rw [List.append_nil]; rfl⟩
  | cons child children ih =>
    obtain ⟨first, rest, hfirst, hrest, rfl⟩ := exists_of_emitChildren_cons hown
    by_cases hb : (selectChild child.name members).isBlank = true
    · -- a blank child emits nothing and is passed over
      have hnone : presentChildren members (child :: children) = presentChildren members children :=
        List.filter_cons_of_neg (by simp [hb])
      rw [emitChild, if_pos hb] at hfirst
      obtain rfl := Except.ok.inj hfirst
      rw [hnone]
      exact ih hrest es
    · have hpresent : presentChildren members (child :: children) =
          child :: presentChildren members children :=
        List.filter_cons_of_pos (by simp [hb])
      obtain ⟨part, hpart, hattach⟩ :=
        exists_attach_of_emitChild h (by simpa using hb) hfirst book
      obtain ⟨parts, hparts, hfold⟩ := ih hrest (es ++ first)
      refine ⟨part :: parts, ?_, ?_⟩
      · rw [hpresent, List.mapM_cons, flattenChild, hpart, hparts]
        rfl
      · rw [hpresent, FlatBook.attachAll, hattach, hfold, List.append_assoc]

end Children

/-- **A flattened container is put together from its children.** Each child whose content is not
blank can be flattened by itself, under the titles of the container and, unless it is a default
child, its own; the container's book is what comes of attaching these books one after the other to
the title of the container. -/
theorem flatten_container {name : NodeName} {children : List SchemaNode}
    (h : (SchemaNode.container name children).Accepted) (members : Fields) (titleEn titleHe : Text)
    (book : Int) :
    let heTitle := if titleHe.isEmpty then titleEn else titleHe
    ∃ parts, (presentChildren members children).mapM (flattenChild members titleEn heTitle book) =
        .ok parts ∧
      flatten (.container name children) (.object members) titleEn titleHe book =
        .ok ((FlatBook.opening book titleEn heTitle).attachAll (presentChildren members children)
          parts) := by
  intro heTitle
  cases h with
  | container distinct below =>
    have hempty : heTitle.isEmpty → titleEn = heTitle := by
      show (if titleHe.isEmpty then titleEn else titleHe).isEmpty = true → _ = ite _ _ _
      split
      · exact fun _ => rfl
      · next hne => exact fun he => absurd he hne
    obtain ⟨own, hown⟩ := emitChildren_eq_ok 1 (.root titleEn heTitle) members children below
    obtain ⟨parts, hparts, hfold⟩ :=
      exists_attach_of_emitChildren hempty hown book [.heading heTitle 0]
    have hnode : emitNode 1 (.root titleEn heTitle) (.object members) (.container name children) =
        .ok own := by
      rw [emitNode]
      exact hown
    exact ⟨parts, hparts, (flatten_of_emitNode hnode book).trans (congrArg Except.ok hfold.symm)⟩

/-- The parts of a book: an introduction, and a main part without a title of its own. -/
def introducedParts : List SchemaNode :=
  [.leaf ⟨"intro".toList, "Introduction".toList, "הקדמה".toList⟩
      ⟨1, ["Paragraph".toList], [], [.paragraph], []⟩,
    .leaf ⟨"default".toList, [], []⟩
      ⟨2, ["Siman".toList, "Seif".toList], [], [.section, .paragraph], []⟩]

/-- A book of these parts is accepted. -/
theorem accepted_introduced :
    (SchemaNode.container ⟨[], "Tur".toList, []⟩ introducedParts).Accepted :=
  .of_leaves (by decide) (by decide)

/-- A content of both parts. -/
def introducedContent : Fields :=
  [([], .array [.array [.text "b".toList], .array [.text "c".toList]]),
    ("Introduction".toList, .array [.text "a".toList])]

/-- The headings of the main part stand next to that of the introduction, behind its line. -/
theorem flatten_container_introduced :
    ∃ parts flat,
      (presentChildren introducedContent introducedParts).mapM
        (flattenChild introducedContent "Tur".toList "טור".toList 5) = .ok parts ∧
      flatten (.container ⟨[], "Tur".toList, []⟩ introducedParts) (.object introducedContent)
        "Tur".toList "טור".toList 5 = .ok flat ∧
      flat = (FlatBook.opening 5 "Tur".toList "טור".toList).attachAll
        (presentChildren introducedContent introducedParts) parts ∧
      flat.headings = [⟨"טור".toList, 0, 0⟩, ⟨"הקדמה".toList, 1, 0⟩, ⟨"Siman א".toList, 1, 1⟩,
        ⟨"Siman ב".toList, 1, 2⟩] ∧
      flat.lines.map (·.ref) = [some "Tur, Introduction 1".toList, some "Tur 1:1".toList,
        some "Tur 2:1".toList] := by
  obtain ⟨parts, hparts, hflat⟩ :=
    flatten_container accepted_introduced introducedContent "Tur".toList "טור".toList 5
  have hviews : (flatten (.container ⟨[], "Tur".toList, []⟩ introducedParts)
      (.object introducedContent) "Tur".toList "טור".toList 5).map
        (fun flat => (flat.headings, flat.lines.map (·.ref))) = .ok
      ([⟨"טור".toList, 0, 0⟩, ⟨"הקדמה".toList, 1, 0⟩, ⟨"Siman א".toList, 1, 1⟩,
        ⟨"Siman ב".toList, 1, 2⟩],
      [some "Tur, Introduction 1".toList, some "Tur 1:1".toList, some "Tur 2:1".toList]) := by
    decide +kernel
  rw [hflat] at hviews
  obtain ⟨hheadings, hlines⟩ := Prod.mk.inj (Except.ok.inj hviews)
  exact ⟨parts, _, hparts, hflat, rfl, hheadings, hlines⟩

end HebrewCorpus
