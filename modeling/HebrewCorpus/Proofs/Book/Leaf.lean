import HebrewCorpus.Proofs.Book.Emissions
import HebrewCorpus.Proofs.Book.Places
import Mathlib.Data.List.Sort

/-! # The lines of a leaf

What flattening makes of a leaf, said by paths of indices into its content. A path leads through
arrays only; at the depth of the leaf it ends at a line, at nothing, or at a value of the wrong
shape.

* **`Json.at?`**: the value at a path.
* **`HoldsLine`**, **`Misshapen`**: the paths that end at a line, and those that end at a value of
  another shape than the leaf asks for.
* **`LeafLayout.lineAt`**: the line at a path, with its label in front and its two references.
* **`lines_flatten_leaf`**: the lines of a leaf are those of its paths, in lexicographic order. -/

namespace HebrewCorpus

open AddressKind Text

/-! ### Paths into a content -/

namespace Json

/-- The item of an array with an index; other values have no items. -/
def item? : Json → Nat → Option Json
  | .array items, i => items[i]?
  | _, _ => none

/-- **The value at a path** of indices that leads through arrays only. -/
def at? : Json → List Nat → Option Json
  | content, [] => some content
  | content, i :: path => (content.item? i).bind (at? · path)

/-- The text at a path, empty when there is none. -/
def textAt (content : Json) (path : List Nat) : Text :=
  match content.at? path with
  | some (.text s) => s
  | _ => []

/-- A path through an array goes on from one of its items. -/
theorem at?_array_cons (items : List Json) (i : Nat) (path : List Nat) :
    (Json.array items).at? (i :: path) = items[i]?.bind (at? · path) := rfl

/-- All that a blank content holds is blank. -/
theorem isBlank_of_at? {content value : Json} {path : List Nat} (h : content.isBlank = true)
    (hvalue : content.at? path = some value) : value.isBlank = true := by
  induction path generalizing content with
  | nil => exact Option.some.inj hvalue ▸ h
  | cons i path ih =>
    cases content with
    | array items =>
      obtain ⟨item, hitem, hvalue⟩ := Option.bind_eq_some_iff.1 hvalue
      rw [isBlank, areBlank_eq_all, List.all_eq_true] at h
      exact ih (h item (List.mem_of_getElem? hitem)) hvalue
    | null | bool | int | real | text | object => cases hvalue

end Json

/-- **A path that ends at a line**: it is as deep as the leaf, and a text that is not blank stands
there. -/
def HoldsLine (depth : Nat) (content : Json) (path : List Nat) : Prop :=
  path.length = depth ∧ ∃ s, content.at? path = some (.text s) ∧ isBlank s = false

/-- **A path that ends at a value of the wrong shape**: above the depth of the leaf an array is asked
for, at its depth a text. Blank values are passed over, unless one of them is the whole content. -/
def Misshapen (depth : Nat) (content : Json) (path : List Nat) : Prop :=
  ∃ value, content.at? path = some value ∧ (path = [] ∨ value.isBlank = false) ∧
    (path.length < depth ∧ value.kind ≠ .array ∨ path.length = depth ∧ value.kind ≠ .text)

/-- The misshapen paths of a content, in its order. -/
def leafFaults : (depth : Nat) → Json → List (List Nat)
  | 0, .text _ => []
  | 0, _ => [[]]
  | depth + 1, .array items =>
    items.zipIdx.flatMap fun (item, i) =>
      (if item.isBlank then [] else leafFaults depth item).map (i :: ·)
  | _ + 1, _ => [[]]

/-! ### Paths through the items of an array -/

section Items

variable {f : Json → List (List Nat)} {items : List Json}

/-- What leads through the items of an array starts with the index of one of them. -/
theorem mem_flatMap_items {path : List Nat} :
    path ∈ (items.zipIdx.flatMap fun (item, i) => (f item).map (i :: ·)) ↔
      ∃ i item rest, path = i :: rest ∧ items[i]? = some item ∧ rest ∈ f item := by
  rw [List.mem_flatMap]
  constructor
  · rintro ⟨⟨item, i⟩, hitem, hpath⟩
    obtain ⟨rest, hrest, rfl⟩ := List.mem_map.1 hpath
    exact ⟨i, item, rest, rfl, List.mem_zipIdx_iff_getElem?.1 hitem, hrest⟩
  · rintro ⟨i, item, rest, rfl, hitem, hrest⟩
    exact ⟨(item, i), List.mem_zipIdx_iff_getElem?.2 hitem, List.mem_map_of_mem hrest⟩

/-- **Paths stay in lexicographic order** when they are led through the items of an array. -/
theorem pairwise_lt_flatMap_items (h : ∀ item, (f item).Pairwise (· < ·)) :
    (items.zipIdx.flatMap fun (item, i) => (f item).map (i :: ·)).Pairwise (· < ·) := by
  rw [List.pairwise_flatMap]
  constructor
  · rintro ⟨item, i⟩ -
    rw [List.pairwise_map]
    exact (h item).imp fun hlt => List.cons_lt_cons_iff.2 (.inr ⟨rfl, hlt⟩)
  · -- the indices ascend along the array
    have hidx : (items.zipIdx.map (·.2)).Pairwise (· < ·) := by
      rw [List.zipIdx_map_snd]
      exact List.pairwise_lt_range'
    refine (List.pairwise_map.1 hidx).imp ?_
    rintro ⟨item, i⟩ ⟨item', j⟩ hij p hp q hq
    obtain ⟨p, -, rfl⟩ := List.mem_map.1 hp
    obtain ⟨q, -, rfl⟩ := List.mem_map.1 hq
    exact List.cons_lt_cons_iff.2 (.inl hij)

end Items

/-- **The places of a content are its paths that end at a line.** -/
theorem mem_leafPlaces_iff {depth : Nat} {content : Json} {path : List Nat} :
    path ∈ leafPlaces depth content ↔ HoldsLine depth content path := by
  induction depth generalizing content path with
  | zero =>
    cases content with
    | text s =>
      rw [leafPlaces]
      by_cases hs : isBlank s = true <;> cases path <;> simp [HoldsLine, Json.at?, hs]
    | null | bool | int | real | array | object =>
      cases path <;> simp [leafPlaces, HoldsLine, Json.at?]
  | succ depth ih =>
    cases content with
    | array items =>
      rw [leafPlaces, mem_flatMap_items]
      constructor
      · rintro ⟨i, item, rest, rfl, hitem, hrest⟩
        obtain ⟨hlen, s, hs, hblank⟩ := ih.1 hrest
        exact ⟨congrArg Nat.succ hlen, s, by rw [Json.at?_array_cons, hitem]; exact hs, hblank⟩
      · rintro ⟨hlen, s, hs, hblank⟩
        cases path with
        | nil => cases hlen
        | cons i rest =>
          obtain ⟨item, hitem, hs⟩ := Option.bind_eq_some_iff.1 hs
          exact ⟨i, item, rest, rfl, hitem, ih.2 ⟨Nat.succ.inj hlen, s, hs, hblank⟩⟩
    | null | bool | int | real | text | object =>
      cases path <;> simp [leafPlaces, HoldsLine, Json.at?, Json.item?]

/-- The places of a content are in lexicographic order. -/
theorem pairwise_lt_leafPlaces (depth : Nat) (content : Json) :
    (leafPlaces depth content).Pairwise (· < ·) := by
  induction depth generalizing content with
  | zero =>
    cases content with
    | text s =>
      rw [leafPlaces]
      split <;> simp
    | null | bool | int | real | array | object => exact .nil
  | succ depth ih =>
    cases content with
    | array items => exact pairwise_lt_flatMap_items ih
    | null | bool | int | real | text | object => exact .nil

/-- **The misshapen paths are those listed.** -/
theorem mem_leafFaults_iff {depth : Nat} {content : Json} {path : List Nat} :
    path ∈ leafFaults depth content ↔ Misshapen depth content path := by
  induction depth generalizing content path with
  | zero => cases content <;> cases path <;> simp [leafFaults, Misshapen, Json.at?, Json.kind]
  | succ depth ih =>
    cases content with
    | array items =>
      -- items that are blank are passed over, and so is all below them
      refine (mem_flatMap_items (f := fun item =>
        if item.isBlank then [] else leafFaults depth item)).trans ?_
      constructor
      · rintro ⟨i, item, rest, rfl, hitem, hrest⟩
        split at hrest
        · cases hrest
        · next hblank =>
          obtain ⟨value, hvalue, hseen, hshape⟩ := ih.1 hrest
          refine ⟨value, by rw [Json.at?_array_cons, hitem]; exact hvalue, .inr ?_, ?_⟩
          · rcases hseen with rfl | hseen
            · obtain rfl := Option.some.inj hvalue
              simpa using hblank
            · exact hseen
          · simpa using hshape
      · rintro ⟨value, hvalue, hseen, hshape⟩
        cases path with
        | nil =>
          obtain rfl := Option.some.inj hvalue
          simp [Json.kind] at hshape
        | cons i rest =>
          obtain ⟨item, hitem, hvalue⟩ := Option.bind_eq_some_iff.1 hvalue
          have hvisible : value.isBlank = false := hseen.resolve_left (by simp)
          have hblank : item.isBlank ≠ true := by
            intro hb
            rw [Json.isBlank_of_at? hb hvalue] at hvisible
            cases hvisible
          refine ⟨i, item, rest, rfl, hitem, ?_⟩
          rw [if_neg hblank, ih]
          exact ⟨value, hvalue, .inr hvisible, by simpa using hshape⟩
    | null | bool | int | real | text | object =>
      cases path <;> simp [leafFaults, Misshapen, Json.at?, Json.item?, Json.kind]

/-- The misshapen paths are in lexicographic order. -/
theorem pairwise_lt_leafFaults (depth : Nat) (content : Json) :
    (leafFaults depth content).Pairwise (· < ·) := by
  induction depth generalizing content with
  | zero => cases content <;> simp [leafFaults]
  | succ depth ih =>
    cases content with
    | array items =>
      refine pairwise_lt_flatMap_items (f := fun item =>
        if item.isBlank then [] else leafFaults depth item) ?_
      intro item
      split
      · exact .nil
      · exact ih item
    | null | bool | int | real | text | object => exact List.pairwise_singleton _ _

/-! ### What a leaf emits -/

/-- No line opens an item. -/
@[simp] theorem filterMap_line?_itemOpening (level : Level) (levels : List Level) (depth i : Nat) :
    (itemOpening level levels depth i).filterMap Emission.line? = [] := by
  rcases itemOpening_cases level levels depth i with h | ⟨title, h⟩ <;> rw [h] <;> rfl

/-- Nothing is left out where an item opens. -/
@[simp] theorem count_mismatch_itemOpening (level : Level) (levels : List Level) (depth i : Nat) :
    (itemOpening level levels depth i).count .mismatch = 0 := by
  rcases itemOpening_cases level levels depth i with h | ⟨title, h⟩ <;> rw [h] <;> rfl

/-- What stands in front of the line at a path: the label of its last index, if the lines of its
array carry their labels. Without levels it is what was given. -/
def leadIn (levels : List Level) (lead : Text) (content : Json) (path : List Nat) : Text :=
  match levels.getLast? with
  | none => lead
  | some level =>
    match path.getLast?, content.at? path.dropLast with
    | some i, some (.array items) => itemLead level [] items i
    | _, _ => []

/-- The lead of a line is found below the item that holds it. -/
theorem leadIn_cons (level : Level) (levels : List Level) (lead : Text) {items : List Json} {i : Nat}
    {item : Json} (hitem : items[i]? = some item) {path : List Nat}
    (hlen : path.length = levels.length) :
    leadIn (level :: levels) lead (.array items) (i :: path) =
      leadIn levels (itemLead level levels items i) item path := by
  cases levels with
  | nil =>
    obtain rfl : path = [] := List.eq_nil_of_length_eq_zero hlen
    rfl
  | cons below levels =>
    cases path with
    | nil => cases hlen
    | cons j path =>
      obtain ⟨last, hlast⟩ : ∃ last, (below :: levels).getLast? = some last :=
        ⟨_, List.getLast?_eq_some_getLast (List.cons_ne_nil _ _)⟩
      simp only [leadIn, List.getLast?_cons_cons, hlast, Json.at?_array_cons, hitem,
        List.dropLast_cons_of_ne_nil (List.cons_ne_nil j path), Option.bind_some]

/-- **The lines of a leaf are those of its paths**, whatever stands in front of them. -/
theorem filterMap_line?_emitLeaf (levels : List Level) (depth : Nat) (path : RefPath) (lead : Text)
    (content : Json) :
    (emitLeaf levels depth path lead content).filterMap Emission.line? =
      (leafPlaces levels.length content).map fun place =>
        (leadIn levels lead content place ++ (content.textAt place).filter (· ≠ '\n'),
          path.goTo (levels.map (·.kind)) place) := by
  induction levels generalizing depth path lead content with
  | nil =>
    cases content with
    | text s =>
      rw [emitLeaf, List.length_nil, leafPlaces]
      split
      · rfl
      · simp [Emission.line?, leadIn, Json.textAt, Json.at?, RefPath.goTo, englishLabels,
          hebrewLabels]
    | null | bool | int | real | array | object => rfl
  | cons level levels ih =>
    cases content with
    | array items =>
      rw [emitLeaf_array, List.filterMap_flatMap, List.length_cons, leafPlaces, List.map_flatMap]
      refine congrArg List.flatten (List.map_congr_left ?_)
      rintro ⟨item, i⟩ hi
      have hitem : items[i]? = some item := List.mem_zipIdx_iff_getElem?.1 hi
      rw [List.map_map]
      dsimp only
      by_cases hb : item.isBlank = true
      · rw [if_pos hb, leafPlaces_eq_nil hb]
        rfl
      · rw [if_neg hb, List.filterMap_append, filterMap_line?_itemOpening, List.nil_append, ih]
        refine List.map_congr_left ?_
        intro place hplace
        have htext : (Json.array items).textAt (i :: place) = item.textAt place := by
          simp only [Json.textAt, Json.at?_array_cons, hitem, Option.bind_some]
        rw [Function.comp_apply, leadIn_cons level levels lead hitem (length_of_mem_leafPlaces hplace),
          htext, List.map_cons, RefPath.goTo_cons]
    | null | bool | int | real | text | object => rfl

/-- **The parts of a leaf that are left out are its misshapen paths.** -/
theorem mismatchCount_emitLeaf (levels : List Level) (depth : Nat) (path : RefPath) (lead : Text)
    (content : Json) :
    FlatBook.mismatchCount (emitLeaf levels depth path lead content) =
      (leafFaults levels.length content).length := by
  induction levels generalizing depth path lead content with
  | nil =>
    cases content with
    | text s =>
      rw [emitLeaf]
      split <;> simp [FlatBook.mismatchCount, leafFaults]
    | null | bool | int | real | array | object => rfl
  | cons level levels ih =>
    cases content with
    | array items =>
      rw [emitLeaf_array, List.length_cons, leafFaults, FlatBook.mismatchCount, List.count_flatMap,
        List.length_flatMap]
      refine congrArg List.sum (List.map_congr_left ?_)
      rintro ⟨item, i⟩ -
      simp only [Function.comp_apply, List.length_map]
      by_cases hb : item.isBlank = true
      · simp [hb]
      · rw [if_neg hb, if_neg hb, List.count_append, count_mismatch_itemOpening, Nat.zero_add]
        exact ih ..
    | null | bool | int | real | text | object => rfl

/-! ### Books of one leaf -/

namespace LeafLayout

/-- **The label in front of the line at a path**: that of the path's last index, when the last level
may be referred to, is not merely counted, and the array that holds the line has more than one item
that is not blank. -/
def labelAt (l : LeafLayout) (content : Json) (path : List Nat) : Text :=
  match l.addressKinds.getLast?, path.getLast?, content.at? path.dropLast with
  | some kind, some i, some (.array items) =>
    if l.isReferenceable? (l.depth - 1) = some true ∧ kind ≠ .integer ∧
        1 < (items.filter (!·.isBlank)).length then
      '(' :: (kind.labelsAt i).hebrew ++ ") ".toList
    else []
  | _, _, _ => []

/-- **The line at a path** with `before` lines before it. -/
def lineAt (l : LeafLayout) (content : Json) (book : Int) (titleEn titleHe : Text)
    (path : List Nat) (before : Nat) : Line where
  id := none
  book := book
  index := before
  content := l.labelAt content path ++ (content.textAt path).filter (· ≠ '\n')
  ref := some (if l.depth = 0 then titleEn else placeRef titleEn l.addressKinds path)
  heRef := some (if l.depth = 0 then titleHe else placeHeRef titleHe l.addressKinds path)

variable {l : LeafLayout}

/-- The lead of a line is its label. -/
theorem leadIn_levels {levels : List Level} (hl : l.levels? = some levels)
    (hkinds : levels.map (·.kind) = l.addressKinds) (content : Json) (path : List Nat) :
    leadIn levels [] content path = l.labelAt content path := by
  rw [labelAt, ← hkinds, List.getLast?_map, leadIn]
  cases hlast : levels.getLast? with
  | none => rfl
  | some level =>
    have hflag := isReferenceable?_of_level? (level?_of_getLast? hl hlast)
    dsimp only [Option.map_some]
    cases path.getLast? with
    | none => rfl
    | some i =>
      cases content.at? path.dropLast with
      | none => rfl
      | some value =>
        cases value with
        | array items =>
          simp [itemLead, labelsInline, hflag, List.countP_eq_length_filter, and_assoc]
        | null | bool | int | real | text | object => rfl

/-- The references of the way from a book's start to a path. -/
theorem ref_goTo_root (titleEn titleHe : Text) (hlen : l.addressKinds.length = l.depth)
    {path : List Nat} (hpath : path.length = l.depth) :
    ((RefPath.root titleEn titleHe).goTo l.addressKinds path).ref =
        (if l.depth = 0 then titleEn else placeRef titleEn l.addressKinds path) ∧
      ((RefPath.root titleEn titleHe).goTo l.addressKinds path).heRef =
        if l.depth = 0 then titleHe else placeHeRef titleHe l.addressKinds path := by
  by_cases hd : l.depth = 0
  · have hnil : l.addressKinds = [] := List.eq_nil_of_length_eq_zero (hlen.trans hd)
    simp [hd, hnil, RefPath.ref, RefPath.heRef, RefPath.phrase, RefPath.goTo, RefPath.root,
      englishLabels, hebrewLabels]
  · rw [if_neg hd, if_neg hd]
    refine HebrewCorpus.ref_goTo_root titleEn titleHe ?_ (hpath.trans hlen.symm)
    intro hnil
    rw [hnil] at hlen
    exact hd hlen.symm

end LeafLayout

/-- **The lines of a leaf are those of its paths.** A book whose schema is one accepted leaf can be
flattened with every content. It has one line for each path that ends at a line, in lexicographic
order, and as many parts were left out as there are misshapen paths. Without a Hebrew title the
English one stands for both. -/
theorem lines_flatten_leaf {layout : LeafLayout} (fits : layout.rejection? = none) (name : NodeName)
    (content : Json) (titleEn titleHe : Text) (book : Int) :
    ∃ flat, flatten (.leaf name layout) content titleEn titleHe book = .ok flat ∧
      (∃ paths : List (List Nat), paths.Pairwise (· < ·) ∧
        (∀ path, path ∈ paths ↔ HoldsLine layout.depth content path) ∧
        flat.lines = paths.zipIdx.map fun (path, before) =>
          layout.lineAt content book titleEn (if titleHe.isEmpty then titleEn else titleHe) path
            before) ∧
      ∃ faults : List (List Nat), faults.Pairwise (· < ·) ∧
        (∀ path, path ∈ faults ↔ Misshapen layout.depth content path) ∧
        flat.mismatches = faults.length := by
  obtain ⟨levels, hl, hkinds⟩ := LeafLayout.levels?_eq_some fits
  have hlen : layout.addressKinds.length = layout.depth := (LeafLayout.lengths_of_rejection? fits).2.1
  have hlevels : levels.length = layout.depth := by rw [← hlen, ← hkinds, List.length_map]
  let heTitle := if titleHe.isEmpty then titleEn else titleHe
  let es := emitLeaf levels 1 (.root titleEn heTitle) [] content
  refine ⟨.ofEmissions book titleEn heTitle (.heading heTitle 0 :: es), ?_, ?_, ?_⟩
  · rw [flatten, emitNode, hl]
    rfl
  · refine ⟨leafPlaces layout.depth content, pairwise_lt_leafPlaces _ _,
      fun path => mem_leafPlaces_iff, ?_⟩
    show FlatBook.linesFrom book 0 es = _
    rw [FlatBook.linesFrom_eq, filterMap_line?_emitLeaf, hkinds, hlevels, List.zipIdx_map,
      List.map_map]
    refine List.map_congr_left ?_
    rintro ⟨path, before⟩ hp
    have hpath : path.length = layout.depth :=
      length_of_mem_leafPlaces (List.fst_mem_of_mem_zipIdx hp)
    obtain ⟨href, hheRef⟩ := LeafLayout.ref_goTo_root titleEn heTitle hlen hpath
    show Line.mk _ _ _ _ _ _ = Line.mk _ _ _ _ _ _
    rw [← LeafLayout.leadIn_levels hl hkinds, ← href, ← hheRef]
    rfl
  · refine ⟨leafFaults layout.depth content, pairwise_lt_leafFaults _ _,
      fun path => mem_leafFaults_iff, ?_⟩
    show FlatBook.mismatchCount (.heading heTitle 0 :: es) = _
    rw [FlatBook.mismatchCount, List.count_cons_of_ne (by simp), ← hlevels]
    exact mismatchCount_emitLeaf levels 1 _ [] content

/-- Two levels, of chapters and verses. -/
def twoLevels : LeafLayout :=
  ⟨2, ["Chapter".toList, "Verse".toList], [], [.chapter, .verse], []⟩

/-- A content of two levels with a blank verse, and a chapter and a verse of the wrong shape. -/
def raggedContent : Json :=
  .array [.array [.text "In the\n days".toList, .text " ".toList, .text "Elimelech".toList],
    .text "lost".toList, .array [.int 3, .text "Boaz".toList]]

/-- The blank verse is passed over, and what has the wrong shape is left out. -/
theorem lines_flatten_leaf_ragged :
    ∃ flat,
      flatten (.leaf ⟨[], "Ruth".toList, []⟩ twoLevels) raggedContent "Ruth".toList "רות".toList 7 =
        .ok flat ∧
      flat.lines.map (fun l => (l.content, l.ref)) =
        [("(א) In the days".toList, some "Ruth 1:1".toList),
          ("(ג) Elimelech".toList, some "Ruth 1:3".toList),
          ("(ב) Boaz".toList, some "Ruth 3:2".toList)] ∧
      flat.mismatches = 2 := by
  have fits : twoLevels.rejection? = none := by decide
  obtain ⟨flat, hflat, ⟨paths, hlt, hmem, hlines⟩, faults, hltFaults, hmemFaults, hcount⟩ :=
    lines_flatten_leaf fits ⟨[], "Ruth".toList, []⟩ raggedContent "Ruth".toList "רות".toList 7
  -- a list in order is known by its members
  have hpaths : paths = [[0, 0], [0, 2], [2, 1]] :=
    hlt.eq_of_mem_iff (by decide) fun path => (hmem path).trans mem_leafPlaces_iff.symm
  have hfaults : faults = [[1], [2, 0]] :=
    hltFaults.eq_of_mem_iff (by decide) fun path => (hmemFaults path).trans mem_leafFaults_iff.symm
  refine ⟨flat, hflat, ?_, by rw [hcount, hfaults]; rfl⟩
  rw [hlines, hpaths]
  decide +kernel

end HebrewCorpus
