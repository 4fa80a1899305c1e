import HebrewCorpus.Proofs.Book.Leaf
import HebrewCorpus.Proofs.Book.LineStarts
import HebrewCorpus.Proofs.Book.Parents

/-! # The tree over a flattened book

The headings that flattening emits go down by single steps and never stand before an earlier one. So
the outline of a flattened book is a tree below its title, in which every entry is one level below its
parent, and every line belongs to the last entry in front of it.

* **`Stepwise`**: levels that go down by single steps; `stepwise_emitLeaf` and `stepwise_emitNode`
  find those of a walk so.
* **`HeadingsDescend`**: the same of headings, with the lines at which they stand.
* **`Outline.ProperTree`**: a tree over all lines of a book; `properTree_ofHeadings` builds it.
* **`properTree_flatten`**: the outline of every flattened book is one. -/

namespace HebrewCorpus

/-! ### Levels of a walk -/

/-- The level of the heading that is emitted, if one is. -/
def Emission.level? : Emission → Option Nat
  | .heading _ level => some level
  | _ => none

/-- The levels of the headings of a sequence. -/
def headingLevels (es : List Emission) : List Nat := es.filterMap Emission.level?

/-- **Levels that go down by single steps** from a depth on, and never above it. -/
structure Stepwise (depth : Nat) (levels : List Nat) : Prop where
  below : ∀ l ∈ levels, depth ≤ l
  first : ∀ l ∈ levels.head?, l = depth
  steps : levels.IsChain fun l next => next ≤ l + 1

namespace Stepwise

variable {depth : Nat} {levels levels' : List Nat}

/-- No levels are no steps. -/
theorem nil : Stepwise depth [] := ⟨by simp, by simp, .nil⟩

/-- **Levels from a depth on may follow each other.** -/
theorem append (h : Stepwise depth levels) (h' : Stepwise depth levels') :
    Stepwise depth (levels ++ levels') where
  below := by
    intro l hl
    rcases List.mem_append.1 hl with hl | hl
    · exact h.below l hl
    · exact h'.below l hl
  first := by
    intro l hl
    cases levels with
    | nil => exact h'.first l hl
    | cons k levels => exact h.first l hl
  steps := by
    refine h.steps.append h'.steps ?_
    intro l hl next hnext
    have hle := h.below l (List.mem_of_getLast? hl)
    have heq := h'.first next hnext
    omega

/-- **A level may be followed by those from the next depth on.** -/
theorem cons (h : Stepwise (depth + 1) levels) : Stepwise depth (depth :: levels) where
  below := by
    intro l hl
    rcases List.mem_cons.1 hl with rfl | hl
    · exact Nat.le_refl _
    · have := h.below l hl
      omega
  first := by
    intro l hl
    exact (Option.some.inj hl).symm
  steps := by
    refine List.isChain_cons.2 ⟨?_, h.steps⟩
    intro l hl
    rw [h.first l hl]

/-- Levels from a depth on may follow each other any number of times. -/
theorem flatMap {α : Type} {as : List α} {f : α → List Nat} (h : ∀ a ∈ as, Stepwise depth (f a)) :
    Stepwise depth (as.flatMap f) := by
  induction as with
  | nil => exact .nil
  | cons a as ih =>
    rw [List.flatMap_cons]
    exact (h a List.mem_cons_self).append (ih fun b hb => h b (List.mem_cons_of_mem _ hb))

end Stepwise

/-- **The headings of a leaf go down by single steps.** -/
theorem stepwise_emitLeaf (levels : List Level) (depth : Nat) (path : RefPath) (lead : Text)
    (content : Json) : Stepwise depth (headingLevels (emitLeaf levels depth path lead content)) := by
  induction levels generalizing depth path lead content with
  | nil =>
    cases content with
    | text s =>
      rw [emitLeaf]
      split <;> exact .nil
    | null | bool | int | real | array | object => exact .nil
  | cons level levels ih =>
    cases content with
    | array items =>
      rw [emitLeaf_array, headingLevels, List.filterMap_flatMap]
      refine .flatMap ?_
      rintro ⟨item, i⟩ -
      dsimp only
      split
      · exact .nil
      · -- an item that is opened by a heading goes on one level deeper
        rcases itemOpening_cases level levels depth i with hnone | ⟨title, hone⟩
        · rw [hnone]
          exact ih ..
        · rw [hone]
          exact (ih ..).cons
    | null | bool | int | real | text | object => exact .nil

mutual

/-- **The headings of a node go down by single steps**, whatever its content. -/
theorem stepwise_emitNode {depth : Nat} {path : RefPath} {content : Json} :
    (schema : SchemaNode) → ∀ {es : List Emission}, emitNode depth path content schema = .ok es →
      Stepwise depth (headingLevels es)
  | .container name children, es, h => by
    unfold emitNode at h
    cases content with
    | object members => exact stepwise_emitChildren children h
    | null | bool | int | real | text | array =>
      obtain rfl := Except.ok.inj h
      exact .nil
  | .leaf name layout, es, h => by
    unfold emitNode at h
    cases hl : layout.levels? with
    | none =>
      rw [hl] at h
      cases h
    | some levels =>
      rw [hl] at h
      obtain rfl := Except.ok.inj h
      exact stepwise_emitLeaf levels depth path [] content

/-- The headings of a container's children go down by single steps. -/
theorem stepwise_emitChildren {depth : Nat} {path : RefPath} {members : Fields} :
    (children : List SchemaNode) → ∀ {es : List Emission},
      emitChildren depth path members children = .ok es → Stepwise depth (headingLevels es)
  | [], es, h => by
    obtain rfl := Except.ok.inj h
    exact .nil
  | child :: children, es, h => by
    obtain ⟨own, rest, hown, hrest, rfl⟩ := exists_of_emitChildren_cons h
    have hbehind := stepwise_emitChildren children hrest
    rw [headingLevels, List.filterMap_append]
    refine Stepwise.append ?_ hbehind
    rcases emitChild_cases hown with ⟨-, rfl⟩ | ⟨-, ⟨-, hown⟩ | ⟨-, below, hbelow, rfl⟩⟩
    · exact .nil
    · exact stepwise_emitNode child hown
    · exact (stepwise_emitNode child hbelow).cons

end

/-! ### Headings of a sequence -/

/-- **Headings that go down by single steps** below the title of a book, and from line to line. -/
structure HeadingsDescend (headings : List Heading) : Prop where
  opening : ∃ title rest, headings = ⟨title, 0, 0⟩ :: rest ∧ ∀ h ∈ rest, 1 ≤ h.level
  steps : headings.IsChain fun g h => h.level ≤ g.level + 1
  lines : headings.Pairwise fun g h => g.lineIndex ≤ h.lineIndex

/-- Headings that descend have no negative levels. -/
theorem HeadingsDescend.level_nonneg {headings : List Heading} (h : HeadingsDescend headings) :
    ∀ g ∈ headings, 0 ≤ g.level := by
  intro g hg
  obtain ⟨title, rest, hopen, hbelow⟩ := h.opening
  rw [hopen] at hg
  rcases List.mem_cons.1 hg with rfl | hg
  · exact Int.le_refl _
  · have := hbelow g hg
    omega

namespace FlatBook

/-- The levels of headings are those of the sequence. -/
theorem map_level_headingsFrom (n : Nat) (es : List Emission) :
    (headingsFrom n es).map (·.level) = (headingLevels es).map Int.ofNat := by
  induction es generalizing n with
  | nil => rfl
  | cons e es ih =>
    cases e with
    | heading title level => exact congrArg _ (ih n)
    | mismatch => exact ih n
    | line content path => exact ih (n + 1)

/-- **Headings never stand before an earlier one.** -/
theorem pairwise_lineIndex_headingsFrom (n : Nat) (es : List Emission) :
    (headingsFrom n es).Pairwise fun g h => g.lineIndex ≤ h.lineIndex := by
  induction es generalizing n with
  | nil => exact .nil
  | cons e es ih =>
    cases e with
    | heading title level =>
      exact List.pairwise_cons.2 ⟨fun h hm => le_lineIndex_of_mem_headingsFrom hm, ih n⟩
    | mismatch => exact ih n
    | line content path => exact ih (n + 1)

/-- Every heading was emitted at its place: behind as many lines as it says. -/
theorem exists_emission_of_getElem?_headingsFrom {n : Nat} {es : List Emission} {k : Nat}
    {h : Heading} (hk : (headingsFrom n es)[k]? = some h) :
    ∃ before level after, es = before ++ .heading h.title level :: after ∧
      (headingLevels before).length = k ∧ h.lineIndex = n + lineCount before := by
  induction es generalizing n k with
  | nil => cases hk
  | cons e es ih =>
    cases e with
    | heading title level =>
      cases k with
      | zero =>
        obtain rfl := Option.some.inj hk
        exact ⟨[], level, es, rfl, rfl, (Int.add_zero _).symm⟩
      | succ k =>
        obtain ⟨before, level', after, rfl, hlen, hline⟩ := ih hk
        exact ⟨.heading title level :: before, level', after, rfl, congrArg Nat.succ hlen, hline⟩
    | mismatch =>
      obtain ⟨before, level', after, rfl, hlen, hline⟩ := ih hk
      exact ⟨.mismatch :: before, level', after, rfl, hlen, hline⟩
    | line content path =>
      obtain ⟨before, level', after, rfl, hlen, hline⟩ := ih hk
      refine ⟨.line content path :: before, level', after, rfl, hlen, ?_⟩
      rw [hline, lineCount_line]
      omega

/-- **Headings below a title descend** when the levels of their sequence do. -/
theorem headingsDescend {es : List Emission} (h : Stepwise 1 (headingLevels es)) (title : Text) :
    HeadingsDescend (headingsFrom 0 (.heading title 0 :: es)) where
  opening := by
    refine ⟨title, headingsFrom 0 es, rfl, ?_⟩
    intro g hg
    have hlevel : g.level ∈ (headingLevels es).map Int.ofNat :=
      map_level_headingsFrom 0 es ▸ List.mem_map_of_mem hg
    obtain ⟨l, hl, heq⟩ := List.mem_map.1 hlevel
    rw [← heq]
    exact Int.ofNat_le.2 (h.below l hl)
  steps := by
    have hsteps : ((headingLevels (.heading title 0 :: es)).map Int.ofNat).IsChain
        fun l next => next ≤ l + 1 := by
      rw [List.isChain_map]
      exact h.cons.steps.imp fun _ _ hle => Int.ofNat_le.2 hle
    rw [← map_level_headingsFrom 0, List.isChain_map] at hsteps
    exact hsteps
  lines := pairwise_lineIndex_headingsFrom 0 _

end FlatBook

/-! ### Trees over lines -/

namespace Outline

/-- **A proper tree over the lines of a book**, the first of which has number `firstLine` in the
corpus. -/
structure ProperTree (toc : Outline) (firstLine : Int) (total : Nat) : Prop where
  /-- No number is given twice, so an entry is known by its number. -/
  ids : (toc.entries.map (·.id)).Nodup
  /-- The first entry is the only root. All others have a parent one level higher, which does not
  stand behind them. -/
  parents : ∃ root rest, toc.entries = root :: rest ∧ root.level = 0 ∧ root.parent = none ∧
    ∀ e ∈ rest, ∃ f ∈ toc.entries, e.parent = some f.id ∧ f.level + 1 = e.level ∧
      f.lineIndex ≤ e.lineIndex
  /-- Every line is mapped once, in order, to the last entry that starts at it or before it. -/
  lines : toc.lineMap.length = total ∧ ∀ i : Nat, i < total →
    ∃ e, (toc.entries.filter (·.lineIndex ≤ (i : Int))).getLast? = some e ∧
      toc.lineMap[i]? = some (firstLine + i, e.id)

section OfHeadings

variable {headings : List Heading} (h : HeadingsDescend headings)
  (book firstLine total firstEntry : Int)

include h

/-- What holds of headings next to each other holds of their entries. -/
theorem isChain_entries_ofHeadings :
    (ofHeadings book headings firstLine total firstEntry).entries.IsChain
      fun e f => f.level ≤ e.level + 1 := by
  have hsteps := h.steps
  rwa [← map_heading_entries_ofHeadings book headings firstLine total firstEntry,
    List.isChain_map] at hsteps

/-- No entry stands before an earlier one. -/
theorem pairwise_entries_ofHeadings :
    (ofHeadings book headings firstLine total firstEntry).entries.Pairwise
      fun e f => e.lineIndex ≤ f.lineIndex := by
  have hlines := h.lines
  rwa [← map_heading_entries_ofHeadings book headings firstLine total firstEntry,
    List.pairwise_map] at hlines

/-- An entry below the first one has a parent one level higher among the entries before it. -/
theorem exists_parent_of_entries_eq {root e : OutlineEntry} {before after : List OutlineEntry}
    (hentries : (ofHeadings book headings firstLine total firstEntry).entries =
      root :: before ++ e :: after) (hroot : root.level = 0) (hdeep : 1 ≤ e.level) :
    ∃ f ∈ root :: before, e.parent = some f.id ∧ f.level + 1 = e.level ∧
      f.lineIndex ≤ e.lineIndex := by
  have hchain := isChain_entries_ofHeadings h book firstLine total firstEntry
  have hordered := pairwise_entries_ofHeadings h book firstLine total firstEntry
  rw [hentries] at hchain hordered
  obtain ⟨hearlier, -, hnext⟩ := List.isChain_append.1 hchain
  -- the entries before this one, the nearest first
  have hfirst : ∀ g ∈ (root :: before).reverse.head?, e.level ≤ g.level + 1 := by
    intro g hg
    rw [List.head?_reverse] at hg
    exact hnext g hg e rfl
  have habove : ∃ g ∈ (root :: before).reverse, g.level < e.level :=
    ⟨root, List.mem_reverse.2 List.mem_cons_self, by omega⟩
  obtain ⟨f, hf, hnearest, hstep⟩ :=
    exists_nearestAbove hfirst (List.isChain_reverse.2 hearlier) habove
  have hf := List.mem_reverse.1 hf
  refine ⟨f, hf, ?_, hstep, ?_⟩
  · rw [← hnearest]
    exact parent_ofHeadings h.level_nonneg hentries
  · exact (List.pairwise_append.1 hordered).2.2 f hf e List.mem_cons_self

/-- **The first entry is the only root, and all others have a parent one level higher.** -/
theorem parents_ofHeadings :
    ∃ root rest, (ofHeadings book headings firstLine total firstEntry).entries = root :: rest ∧
      root.level = 0 ∧ root.lineIndex = 0 ∧ root.parent = none ∧
      ∀ e ∈ rest, ∃ f ∈ (ofHeadings book headings firstLine total firstEntry).entries,
        e.parent = some f.id ∧ f.level + 1 = e.level ∧ f.lineIndex ≤ e.lineIndex := by
  have hheadings := map_heading_entries_ofHeadings book headings firstLine total firstEntry
  obtain ⟨title, hs, hopen, hbelow⟩ := h.opening
  cases hentries : (ofHeadings book headings firstLine total firstEntry).entries with
  | nil =>
    rw [hentries, hopen] at hheadings
    cases hheadings
  | cons root rest =>
    rw [hentries, hopen, List.map_cons] at hheadings
    obtain ⟨hroot, hrest⟩ := List.cons.inj hheadings
    have hlevel : root.level = 0 := congrArg Heading.level hroot
    refine ⟨root, rest, rfl, hlevel, congrArg Heading.lineIndex hroot, ?_, ?_⟩
    · have hsplit : (ofHeadings book headings firstLine total firstEntry).entries =
          [] ++ root :: rest := hentries
      exact parent_ofHeadings h.level_nonneg hsplit
    · intro e he
      have hmem : e.heading ∈ hs := hrest ▸ List.mem_map_of_mem he
      obtain ⟨before, after, rfl⟩ := List.append_of_mem he
      obtain ⟨f, hf, hparent⟩ := exists_parent_of_entries_eq h book firstLine total firstEntry
        hentries hlevel (hbelow _ hmem)
      exact ⟨f, List.mem_append_left (e :: after) hf, hparent⟩

/-- **Every line is mapped to the last entry that starts at it or before it.** -/
theorem lineMap_ofHeadings (count : Nat) :
    let toc := ofHeadings book headings firstLine count firstEntry
    toc.lineMap.length = count ∧ ∀ i : Nat, i < count →
      ∃ e, (toc.entries.filter (·.lineIndex ≤ (i : Int))).getLast? = some e ∧
        toc.lineMap[i]? = some (firstLine + i, e.id) := by
  intro toc
  have hordered := pairwise_entries_ofHeadings h book firstLine count firstEntry
  obtain ⟨root, rest, hentries, -, hline, -⟩ :=
    parents_ofHeadings h book firstLine count firstEntry
  -- the first entry is in front of every line
  have hlast (i : Nat) : ∃ e, (toc.entries.filter (·.lineIndex ≤ (i : Int))).getLast? = some e := by
    rw [hentries, List.filter_cons_of_pos (by simp [hline]), List.getLast?_cons]
    exact ⟨_, rfl⟩
  have hanchors : (toc.entries.map fun e => (e.lineIndex, e.id)).Pairwise (·.1 ≤ ·.1) :=
    List.pairwise_map.2 hordered
  have hforce (i : Int) : entryAt? i (toc.entries.map fun e => (e.lineIndex, e.id)) =
      (toc.entries.filter (·.lineIndex ≤ i)).getLast?.map (·.id) := by
    rw [entryAt?, List.filter_map, List.getLast?_map, Option.map_map]
    rfl
  have hmap : toc.lineMap = (numbersFrom 0 count).map fun i => (firstLine + i,
      (entryAt? i (toc.entries.map fun e => (e.lineIndex, e.id))).getD 0) := by
    refine (mapLines_of_ascending hanchors firstLine count).trans ?_
    rw [Int.toNat_natCast]
    refine List.filterMap_eq_map_iff_forall_eq_some.2 fun i hi => ?_
    obtain ⟨n, rfl⟩ := Int.eq_ofNat_of_zero_le (mem_numbersFrom.1 hi).1
    obtain ⟨e, he⟩ := hlast n
    rw [hforce, he]
    rfl
  refine ⟨by rw [hmap, List.length_map, length_numbersFrom], fun i hi => ?_⟩
  obtain ⟨e, he⟩ := hlast i
  refine ⟨e, he, ?_⟩
  rw [hmap, List.getElem?_map, getElem?_numbersFrom 0 hi, Option.map_some, Int.zero_add, hforce, he]
  rfl

/-- **The outline of headings that descend is a proper tree** over all lines. -/
theorem properTree_ofHeadings (count : Nat) :
    (ofHeadings book headings firstLine count firstEntry).ProperTree firstLine count where
  ids := by
    rw [map_id_entries_ofHeadings]
    exact nodup_numbersFrom firstEntry headings.length
  parents := by
    obtain ⟨root, rest, hentries, hlevel, -, hparent, hrest⟩ :=
      parents_ofHeadings h book firstLine count firstEntry
    exact ⟨root, rest, hentries, hlevel, hparent, hrest⟩
  lines := lineMap_ofHeadings h book firstLine firstEntry count

end OfHeadings

/-- An entry names no line exactly when none is at its place. -/
theorem line_eq_none_iff {book firstLine total firstEntry : Int} {headings : List Heading}
    {e : OutlineEntry} (h : e ∈ (ofHeadings book headings firstLine total firstEntry).entries) :
    e.line = none ↔ total ≤ e.lineIndex := by
  obtain ⟨-, heading, -, hindex, hline⟩ := exists_heading_of_mem_entries h
  rw [hline, hindex]
  split <;> simp <;> omega

end Outline

/-- **The outline of a flattened book is a proper tree over all its lines.** Every accepted schema can
be flattened with every content, and the outline of its headings is a proper tree. Each entry stands
for a heading that was emitted, and names no line exactly when no line was emitted after it. -/
theorem properTree_flatten {schema : SchemaNode} (h : schema.Accepted) (content : Json)
    (titleEn titleHe : Text) (book firstLine firstEntry : Int) :
    let heTitle := if titleHe.isEmpty then titleEn else titleHe
    ∃ es flat, emitNode 1 (.root titleEn heTitle) content schema = .ok es ∧
      flatten schema content titleEn titleHe book = .ok flat ∧
      flat = .ofEmissions book titleEn heTitle (.heading heTitle 0 :: es) ∧
      let toc := Outline.ofHeadings book flat.headings firstLine flat.lines.length firstEntry
      toc.ProperTree firstLine flat.lines.length ∧
      ∀ k e, toc.entries[k]? = some e → ∃ before level after,
        .heading heTitle 0 :: es = before ++ .heading e.text level :: after ∧
        (headingLevels before).length = k ∧ (e.line = none ↔ lineCount after = 0) := by
  intro heTitle
  obtain ⟨es, hes⟩ := emitNode_eq_ok 1 (.root titleEn heTitle) content schema h
  have hdescend := FlatBook.headingsDescend (stepwise_emitNode schema hes) heTitle
  refine ⟨es, _, hes, flatten_of_emitNode hes book, rfl, ?_, ?_⟩
  · exact Outline.properTree_ofHeadings hdescend book firstLine firstEntry _
  · intro k e hk
    have hmem := List.mem_of_getElem? hk
    -- the entry stands for the heading at the same position
    have hheading : (FlatBook.headingsFrom 0 (.heading heTitle 0 :: es))[k]? = some e.heading := by
      have hheadings := congrArg (·[k]?) (Outline.map_heading_entries_ofHeadings book
        (FlatBook.headingsFrom 0 (.heading heTitle 0 :: es)) firstLine
        (FlatBook.linesFrom book 0 (.heading heTitle 0 :: es)).length firstEntry)
      rw [← hheadings, List.getElem?_map]
      exact congrArg (Option.map OutlineEntry.heading) hk
    obtain ⟨before, level, after, hsplit, hlen, hindex⟩ :=
      FlatBook.exists_emission_of_getElem?_headingsFrom hheading
    refine ⟨before, level, after, hsplit, hlen, ?_⟩
    have htotal : (FlatBook.linesFrom book 0 (.heading heTitle 0 :: es)).length =
        lineCount before + lineCount after := by
      rw [FlatBook.length_linesFrom_eq, hsplit, lineCount_append, lineCount_heading]
    have hline : e.lineIndex = lineCount before := by
      have : e.heading.lineIndex = e.lineIndex := rfl
      omega
    rw [Outline.line_eq_none_iff hmem, hline]
    show ((FlatBook.linesFrom book 0 (.heading heTitle 0 :: es)).length : Int) ≤ _ ↔ _
    omega

/-- A chapter of one verse, and a chapter of the wrong shape behind it. -/
def lostChapter : Json := .array [.array [.text "In the days".toList], .text "lost".toList]

/-- The lost chapter keeps its entry, which names no line. -/
theorem properTree_flatten_lost :
    ∃ flat, flatten (.leaf ⟨[], "Ruth".toList, []⟩ twoLevels) lostChapter "Ruth".toList "רות".toList
        7 = .ok flat ∧
      (Outline.ofHeadings 7 flat.headings 100 flat.lines.length 50).ProperTree 100
        flat.lines.length ∧
      (Outline.ofHeadings 7 flat.headings 100 flat.lines.length 50).entries.map
          (fun e => (e.parent, e.text, e.line)) =
        [(none, "רות".toList, some 100), (some 50, "Chapter א".toList, some 100),
          (some 50, "Chapter ב".toList, none)] := by
  have accepted : (SchemaNode.leaf ⟨[], "Ruth".toList, []⟩ twoLevels).Accepted :=
    .leaf (by decide)
  obtain ⟨es, flat, -, hflat, -, htree, -⟩ :=
    properTree_flatten accepted lostChapter "Ruth".toList "רות".toList 7 100 50
  refine ⟨flat, hflat, htree, ?_⟩
  have hentries : (flatten (.leaf ⟨[], "Ruth".toList, []⟩ twoLevels) lostChapter "Ruth".toList
      "רות".toList 7).map (fun flat =>
        (Outline.ofHeadings 7 flat.headings 100 flat.lines.length 50).entries.map
          (fun e => (e.parent, e.text, e.line))) =
      .ok [(none, "רות".toList, some 100), (some 50, "Chapter א".toList, some 100),
        (some 50, "Chapter ב".toList, none)] := by
    decide +kernel
  rw [hflat] at hentries
  exact Except.ok.inj hentries

end HebrewCorpus
