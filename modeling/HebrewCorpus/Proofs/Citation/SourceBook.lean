import HebrewCorpus.Proofs.Citation.PlaceKeys

/-! # Books under one index

A source book is a book with its number and an accepted schema. A list of source books with
different numbers is flattened book by book and put under one reference index.

* **`SourceBook`**, **`indexBooks`**: the books and their index; `indexBooks_eq_ok` says that it is
  always there.
* **`RefIndex.bookFor_build`**: the book whose title a key starts with.
* **`FlatLeaf`**: a book of the index that is one leaf; `FlatLeaf.refs_eq` lists its references.
* **`IndexedLeaf`**: such a book with an English title; `exists_indexedLeaf` finds it among others. -/

namespace HebrewCorpus

open AddressKind Text

/-- **A book with its number and an accepted schema.** -/
structure SourceBook where
  id : Int
  titleEn : Text
  titleHe : Text
  schema : SchemaNode
  content : Json
  accepted : schema.Accepted

namespace SourceBook

/-- The titles by which citations may name the book. -/
def titles (b : SourceBook) : List Text := [b.titleEn, b.titleHe]

/-- The book flattened. -/
def flat (b : SourceBook) : Except FlattenFault FlatBook :=
  flatten b.schema b.content b.titleEn b.titleHe b.id

/-- The title in the book's Hebrew references. -/
def hebrewTitle (b : SourceBook) : Text := if b.titleHe.isEmpty then b.titleEn else b.titleHe

/-- The levels of a book that is one leaf. -/
def layout? (b : SourceBook) : Option LeafLayout :=
  match b.schema with
  | .leaf _ layout => some layout
  | .container .. => none

/-- Every source book can be flattened. -/
theorem flat_eq_ok (b : SourceBook) : ∃ flat, b.flat = .ok flat :=
  flatten_eq_ok b.accepted b.content b.titleEn b.titleHe b.id

/-- The references of a source book carry its number. -/
theorem book_of_mem_refs {b : SourceBook} {flat : FlatBook} (h : b.flat = .ok flat) {e : RefEntry}
    (he : e ∈ flat.refs) : e.book = b.id := by
  obtain ⟨title, es, rfl⟩ := exists_of_flatten_eq_ok h
  exact FlatBook.book_of_mem_refsFrom he

end SourceBook

/-- The titles of source books, with the numbers of the books. -/
def bookTitles (books : List SourceBook) : List (Int × List Text) :=
  books.map fun b => (b.id, b.titles)

/-- **The reference index of source books**, with titles by which citations may name them and the
numbers of their first lines. -/
def indexBooks (books : List SourceBook) (titles : List (Int × List Text))
    (offsets : List (Int × Int)) : Except FlattenFault RefIndex := do
  let flats ← books.mapM (·.flat)
  return .build (flats.flatMap (·.refs)) titles offsets

/-- **Books with different numbers keep their references apart**: those of a book are found again
among the references of all. -/
theorem mapM_flat_eq_ok {books : List SourceBook} (distinct : (books.map (·.id)).Nodup) :
    ∃ flats, books.mapM (·.flat) = .ok flats ∧
      (∀ e ∈ flats.flatMap (·.refs), e.book ∈ books.map (·.id)) ∧
        ∀ b ∈ books, ∃ flat, b.flat = .ok flat ∧
          (flats.flatMap (·.refs)).filter (·.book = b.id) = flat.refs := by
  induction books with
  | nil => exact ⟨[], rfl, by simp, by simp⟩
  | cons b books ih =>
    rw [List.map_cons, List.nodup_cons] at distinct
    obtain ⟨flats, hflats, hids, hrefs⟩ := ih distinct.2
    obtain ⟨flat, hflat⟩ := b.flat_eq_ok
    have hown : ∀ e ∈ flat.refs, e.book = b.id := fun e he => SourceBook.book_of_mem_refs hflat he
    refine ⟨flat :: flats, ?_, ?_, ?_⟩
    · rw [List.mapM_cons, hflat, hflats]
      rfl
    · intro e he
      rw [List.flatMap_cons, List.mem_append] at he
      rcases he with he | he
      · exact hown e he ▸ List.mem_cons_self
      · exact List.mem_cons_of_mem _ (hids e he)
    · intro c hc
      rw [List.flatMap_cons]
      rcases List.mem_cons.1 hc with rfl | hc
      · refine ⟨flat, hflat, ?_⟩
        -- the book itself comes first, and no later one has its number
        have hkeep : flat.refs.filter (·.book = c.id) = flat.refs :=
          List.filter_eq_self.2 fun e he => decide_eq_true (hown e he)
        have hdrop : (flats.flatMap (·.refs)).filter (·.book = c.id) = [] :=
          List.filter_eq_nil_iff.2 fun e he h =>
            distinct.1 (of_decide_eq_true h ▸ hids e he)
        rw [List.filter_append, hkeep, hdrop, List.append_nil]
      · obtain ⟨other, hother, hfilter⟩ := hrefs c hc
        refine ⟨other, hother, ?_⟩
        -- the first book has another number
        have hdrop : flat.refs.filter (·.book = c.id) = [] :=
          List.filter_eq_nil_iff.2 fun e he h =>
            distinct.1 ((hown e he).symm.trans (of_decide_eq_true h) ▸ List.mem_map_of_mem hc)
        rw [List.filter_append, hdrop, List.nil_append, hfilter]

/-- **Source books with different numbers have an index**, which holds for each of them its
references. -/
theorem indexBooks_eq_ok {books : List SourceBook} (distinct : (books.map (·.id)).Nodup)
    (titles : List (Int × List Text)) (offsets : List (Int × Int)) :
    ∃ entries, indexBooks books titles offsets = .ok (.build entries titles offsets) ∧
      ∀ b ∈ books, ∃ flat, b.flat = .ok flat ∧ entries.filter (·.book = b.id) = flat.refs := by
  obtain ⟨flats, hflats, -, hrefs⟩ := mapM_flat_eq_ok distinct
  exact ⟨flats.flatMap (·.refs), by rw [indexBooks, hflats]; rfl, hrefs⟩

/-- The index of a single source book holds its references. -/
theorem indexBooks_singleton {b : SourceBook} {flat : FlatBook} (h : b.flat = .ok flat)
    (titles : List (Int × List Text)) (offsets : List (Int × Int)) :
    indexBooks [b] titles offsets = .ok (.build flat.refs titles offsets) := by
  rw [indexBooks, List.mapM_cons, h]
  show Except.ok (RefIndex.build (flat.refs ++ []) _ _) = _
  rw [List.append_nil]

/-! ### The book of a key -/

/-- The titles in order are those that were given. -/
theorem mem_orderedTitles {title : Text} {titles : List Text} :
    title ∈ orderedTitles titles ↔ title ∈ titleKeys titles :=
  (sortOrdered_perm comesBefore _).mem_iff

/-- Every title with its first book was declared, and every declared title has a first book. -/
theorem firstBooks_spec (declared : List (Text × Int)) :
    (∀ d ∈ firstBooks declared, d ∈ declared) ∧
      ∀ d ∈ declared, ∃ book, (d.1, book) ∈ firstBooks declared := by
  -- the fold is generalised over the titles seen before
  have grow (seen : List (Text × Int)) :
      let all := declared.foldl
        (fun seen d => if (seen.lookup d.1).isSome then seen else seen ++ [d]) seen
      (∀ d ∈ all, d ∈ seen ∨ d ∈ declared) ∧ (∀ d ∈ seen, d ∈ all) ∧
        ∀ d ∈ declared, ∃ book, (d.1, book) ∈ all := by
    induction declared generalizing seen with
    | nil => exact ⟨fun d hd => .inl hd, fun d hd => hd, fun d hd => by cases hd⟩
    | cons c declared ih =>
      rw [List.foldl_cons]
      by_cases hc : (seen.lookup c.1).isSome = true
      · rw [if_pos hc]
        obtain ⟨hfrom, hkeep, hall⟩ := ih seen
        refine ⟨fun d hd => (hfrom d hd).imp_right (List.mem_cons_of_mem _), hkeep, ?_⟩
        intro d hd
        rcases List.mem_cons.1 hd with rfl | hd
        · obtain ⟨book, hb⟩ := Option.isSome_iff_exists.1 hc
          exact ⟨book, hkeep _ (mem_of_lookup_eq_some hb)⟩
        · exact hall d hd
      · rw [if_neg hc]
        obtain ⟨hfrom, hkeep, hall⟩ := ih (seen ++ [c])
        refine ⟨?_, fun d hd => hkeep d (List.mem_append_left _ hd), ?_⟩
        · intro d hd
          rcases hfrom d hd with h | h
          · rcases List.mem_append.1 h with h | h
            · exact .inl h
            · exact .inr (List.mem_singleton.1 h ▸ List.mem_cons_self)
          · exact .inr (List.mem_cons_of_mem _ h)
        · intro d hd
          rcases List.mem_cons.1 hd with rfl | hd
          · exact ⟨d.2, hkeep d (by simp)⟩
          · exact hall d hd
  obtain ⟨hfrom, -, hall⟩ := grow []
  exact ⟨fun d hd => (hfrom d hd).resolve_left (by simp), hall⟩

/-- A key starts with a title when it is the title or goes on with a space. -/
theorem startsWithTitle_iff {key title : Text} :
    RefIndex.startsWithTitle key title = true ↔ key = title ∨ title ++ [' '] <+: key := by
  rw [RefIndex.startsWithTitle, Bool.or_eq_true, decide_eq_true_eq, Option.isSome_iff_exists]
  refine or_congr Iff.rfl ⟨?_, ?_⟩
  · rintro ⟨rest, h⟩
    exact ⟨rest, (dropLead?_eq_some_iff.1 h).symm⟩
  · rintro ⟨rest, h⟩
    exact ⟨rest, dropLead?_eq_some_iff.2 h.symm⟩

/-- **A key belongs to a book whose title it starts with**, when it starts with no title of another
book. -/
theorem RefIndex.bookFor_build (entries : List RefEntry) {titles : List (Int × List Text)}
    (offsets : List (Int × Int)) {key title : Text} {book : Int} {own : List Text}
    (hb : (book, own) ∈ titles) (ht : title ∈ orderedTitles own)
    (hs : startsWithTitle key title = true)
    (honly : ∀ p ∈ titles, ∀ t ∈ orderedTitles p.2, startsWithTitle key t = true → p.1 = book) :
    (build entries titles offsets).bookFor key = some book := by
  let declared := titles.flatMap fun p => (orderedTitles p.2).map (·, p.1)
  have hperm := sortOrdered_perm (fun a b : Text × Int => comesBefore a.1 b.1) (firstBooks declared)
  obtain ⟨hfrom, hall⟩ := firstBooks_spec declared
  have hdeclared : (title, book) ∈ declared :=
    List.mem_flatMap.2 ⟨(book, own), hb, List.mem_map.2 ⟨title, ht, rfl⟩⟩
  obtain ⟨first, hfirst⟩ := hall _ hdeclared
  show Option.map (·.2) ((sortOrdered _ (firstBooks declared)).find? _) = _
  -- some title is found, and whichever it is, its book is the one
  have hsome : ((sortOrdered (fun a b : Text × Int => comesBefore a.1 b.1)
      (firstBooks declared)).find? fun t => startsWithTitle key t.1).isSome :=
    List.find?_isSome.2 ⟨(title, first), hperm.mem_iff.2 hfirst, hs⟩
  obtain ⟨⟨found, b⟩, hfind⟩ := Option.isSome_iff_exists.1 hsome
  obtain ⟨p, hp, hm⟩ :=
    List.mem_flatMap.1 (hfrom _ (hperm.mem_iff.1 (List.mem_of_find?_eq_some hfind)))
  obtain ⟨t, htitle, he⟩ := List.mem_map.1 hm
  injection he with hfound hbook
  subst hfound hbook
  have hstarts := List.find?_some (p := fun t : Text × Int => startsWithTitle key t.1) hfind
  rw [hfind]
  show some p.1 = some book
  rw [honly p hp t htitle hstarts]

/-! ### Leaves under an index -/

/-- A line whose own entry is given has that entry's references, and stands before its number. -/
theorem refs_of_entry? {line : Line} {e : RefEntry} (h : line.entry? = some e) :
    line.ref = some e.ref ∧ line.heRef = some e.heRef ∧ line.index = e.lineIndex - 1 := by
  obtain ⟨ref, href, h⟩ := Option.bind_eq_some_iff.1 h
  obtain ⟨heRef, hheRef, rfl⟩ := Option.map_eq_some_iff.1 h
  exact ⟨href, hheRef, (Int.add_sub_cancel _ 1).symm⟩

/-- **A book under an index** that is one leaf of at least one level, with its flat book; `entries`
are the references of all books of the index. -/
structure FlatLeaf (b : SourceBook) (layout : LeafLayout) (flat : FlatBook)
    (entries : List RefEntry) : Prop where
  leaf : b.layout? = some layout
  deep : 1 ≤ layout.depth
  flattened : b.flat = .ok flat
  own : entries.filter (·.book = b.id) = flat.refs

namespace FlatLeaf

variable {b : SourceBook} {layout : LeafLayout} {flat : FlatBook} {entries : List RefEntry}

/-- A leaf by itself is under the index of its own references. -/
theorem single (hleaf : b.layout? = some layout) (hdeep : 1 ≤ layout.depth)
    (hflat : b.flat = .ok flat) : FlatLeaf b layout flat flat.refs where
  leaf := hleaf
  deep := hdeep
  flattened := hflat
  own := List.filter_eq_self.2 fun _ he => decide_eq_true (SourceBook.book_of_mem_refs hflat he)

/-- The schema of the book is an accepted leaf. -/
theorem exists_schema (h : FlatLeaf b layout flat entries) :
    ∃ name, b.schema = .leaf name layout ∧ layout.rejection? = none := by
  have hleaf := h.leaf
  have haccepted := b.accepted
  unfold SourceBook.layout? at hleaf
  split at hleaf
  · next name l hs =>
    obtain rfl : l = layout := Option.some.inj hleaf
    rw [hs] at haccepted
    cases haccepted with
    | leaf fits => exact ⟨name, hs, fits⟩
  · cases hleaf

/-- The book has a kind of address for each level. -/
theorem length_kinds (h : FlatLeaf b layout flat entries) :
    layout.addressKinds.length = layout.depth := by
  obtain ⟨-, -, fits⟩ := h.exists_schema
  exact (LeafLayout.lengths_of_rejection? fits).2.1

/-- The book has at least one kind of address. -/
theorem kinds_ne_nil (h : FlatLeaf b layout flat entries) : layout.addressKinds ≠ [] := by
  intro hn
  have hlen := h.length_kinds
  have hdeep := h.deep
  rw [hn, List.length_nil] at hlen
  omega

/-- A place of the book has an index for each level. -/
theorem length_place (h : FlatLeaf b layout flat entries) :
    ∀ place ∈ leafPlaces layout.depth b.content, place.length = layout.addressKinds.length := by
  intro place hp
  rw [h.length_kinds]
  exact length_of_mem_leafPlaces hp

/-- **The references of the book** are those of its places. -/
theorem refs_eq (h : FlatLeaf b layout flat entries) :
    flat.refs = placeEntries b.id b.titleEn b.hebrewTitle layout.addressKinds
      (leafPlaces layout.depth b.content) := by
  obtain ⟨name, hs, fits⟩ := h.exists_schema
  obtain ⟨flat', hflat', hrefs⟩ :=
    flatten_leaf fits h.deep name b.content b.titleEn b.titleHe b.id
  have hflat : b.flat = .ok flat' := by rw [SourceBook.flat, hs, hflat']
  obtain rfl : flat' = flat := Except.ok.inj (hflat.symm.trans h.flattened)
  exact hrefs

/-- **The lines of the book name its references** in their order. -/
theorem map_entry?_lines (h : FlatLeaf b layout flat entries) :
    flat.lines.map Line.entry? = flat.refs.map some := by
  obtain ⟨title, es, rfl⟩ := exists_of_flatten_eq_ok h.flattened
  exact FlatBook.map_entry?_linesFrom b.id 0 _

/-- The references and the numbers of the lines of the book. -/
theorem map_refs_lines (h : FlatLeaf b layout flat entries) :
    flat.lines.map (fun l => (l.ref, l.heRef, l.index)) =
      flat.refs.map fun e => (some e.ref, some e.heRef, e.lineIndex - 1) := by
  obtain ⟨title, es, rfl⟩ := exists_of_flatten_eq_ok h.flattened
  exact FlatBook.map_refs_linesFrom b.id 0 _

/-- The English references and the numbers of the lines of the book. -/
theorem map_ref_lines (h : FlatLeaf b layout flat entries) :
    flat.lines.map (fun l => (l.ref, l.index)) =
      flat.refs.map fun e => (some e.ref, e.lineIndex - 1) := by
  have hrefs := congrArg (List.map fun r => (r.1, r.2.2)) h.map_refs_lines
  rwa [List.map_map, List.map_map] at hrefs

/-- The Hebrew references and the numbers of the lines of the book. -/
theorem map_heRef_lines (h : FlatLeaf b layout flat entries) :
    flat.lines.map (fun l => (l.heRef, l.index)) =
      flat.refs.map fun e => (some e.heRef, e.lineIndex - 1) := by
  have hrefs := congrArg (List.map fun r => (r.2.1, r.2.2)) h.map_refs_lines
  rwa [List.map_map, List.map_map] at hrefs

/-- The index of a corpus looks the keys of the book up among those of its places. -/
theorem lookup_build (h : FlatLeaf b layout flat entries) (titles : List (Int × List Text))
    (offsets : List (Int × Int)) (key : Text) :
    (RefIndex.build entries titles offsets).lookup key (some b.id) =
      (BookScope.build (orderedTitles ((titles.lookup b.id).getD [])) ((offsets.lookup b.id).getD 0)
        (placeEntries b.id b.titleEn b.hebrewTitle layout.addressKinds
          (leafPlaces layout.depth b.content))).keys.lookup key := by
  rw [RefIndex.lookup_build, RefIndex.scopeOf, h.own, h.refs_eq]

/-- **Every line of the book is the line of a place**, and carries its two references. -/
theorem exists_place_of_mem_lines (h : FlatLeaf b layout flat entries) {line : Line}
    (hline : line ∈ flat.lines) :
    ∃ place i, (place, i) ∈ (leafPlaces layout.depth b.content).zipIdx ∧
      line.ref = some (placeRef b.titleEn layout.addressKinds place) ∧
        line.heRef = some (placeHeRef b.hebrewTitle layout.addressKinds place) ∧ line.index = i := by
  have hentry : line.entry? ∈ flat.refs.map some :=
    h.map_entry?_lines ▸ List.mem_map_of_mem hline
  obtain ⟨e, he, hsome⟩ := List.mem_map.1 hentry
  obtain ⟨href, hheRef, hindex⟩ := refs_of_entry? hsome.symm
  rw [h.refs_eq] at he
  obtain ⟨⟨place, i⟩, hplace, rfl⟩ := List.mem_map.1 he
  exact ⟨place, i, hplace, href, hheRef, hindex.trans (Int.add_sub_cancel _ 1)⟩

/-- **Every place of the book has a line**, which carries its two references. -/
theorem exists_line_of_mem_places (h : FlatLeaf b layout flat entries) {place : List Nat} {i : Nat}
    (hp : (place, i) ∈ (leafPlaces layout.depth b.content).zipIdx) :
    ∃ line ∈ flat.lines, line.ref = some (placeRef b.titleEn layout.addressKinds place) ∧
      line.heRef = some (placeHeRef b.hebrewTitle layout.addressKinds place) ∧ line.index = i := by
  have hentry : some (placeEntry b.id b.titleEn b.hebrewTitle layout.addressKinds place i) ∈
      flat.lines.map Line.entry? := by
    rw [h.map_entry?_lines, h.refs_eq]
    exact List.mem_map_of_mem (List.mem_map.2 ⟨(place, i), hp, rfl⟩)
  obtain ⟨line, hline, he⟩ := List.mem_map.1 hentry
  obtain ⟨href, hheRef, hindex⟩ := refs_of_entry? he
  exact ⟨line, hline, href, hheRef, hindex.trans (Int.add_sub_cancel _ 1)⟩

end FlatLeaf

/-- **A book under an index** that is one leaf of at least one level and whose English title has a
canonical form, with its flat book; `entries` are the references of all books of the index. -/
structure IndexedLeaf (b : SourceBook) (layout : LeafLayout) (flat : FlatBook)
    (entries : List RefEntry) : Prop where
  leaf : b.layout? = some layout
  deep : 1 ≤ layout.depth
  titled : canonical b.titleEn ≠ []
  flattened : b.flat = .ok flat
  own : entries.filter (·.book = b.id) = flat.refs

/-- A leaf with an English title is a leaf. -/
theorem IndexedLeaf.flatLeaf {b : SourceBook} {layout : LeafLayout} {flat : FlatBook}
    {entries : List RefEntry} (h : IndexedLeaf b layout flat entries) :
    FlatLeaf b layout flat entries :=
  ⟨h.leaf, h.deep, h.flattened, h.own⟩

/-- **Source books with different numbers have an index**, and each of them that is one leaf with an
English title is a leaf under it. -/
theorem exists_indexedLeaf {books : List SourceBook} (distinct : (books.map (·.id)).Nodup)
    (titles : List (Int × List Text)) (offsets : List (Int × Int)) :
    ∃ entries, indexBooks books titles offsets = .ok (.build entries titles offsets) ∧
      ∀ b ∈ books, ∀ layout, b.layout? = some layout → 1 ≤ layout.depth →
        canonical b.titleEn ≠ [] → ∃ flat, IndexedLeaf b layout flat entries := by
  obtain ⟨entries, hindex, hentries⟩ := indexBooks_eq_ok distinct titles offsets
  refine ⟨entries, hindex, ?_⟩
  intro b hb layout hl hd ht
  obtain ⟨flat, hflat, hown⟩ := hentries b hb
  exact ⟨flat, hl, hd, ht, hflat, hown⟩

/-- A small book of two levels, with an empty chapter and a blank verse. -/
def ruth : SourceBook where
  id := 7
  titleEn := "Ruth".toList
  titleHe := "רות".toList
  schema :=
    .leaf ⟨"Ruth".toList, "Ruth".toList, "רות".toList⟩
      ⟨2, ["Chapter".toList, "Verse".toList], [], [.chapter, .verse], []⟩
  content :=
    .array [.array [.text "In the days".toList, .text "Elimelech".toList], .array [],
      .array [.text " ".toList, .text "Boaz".toList]]
  accepted := .leaf (by decide)

/-- The lines of the small book: their references and their numbers. -/
theorem lines_ruth {flat : FlatBook} (hflat : ruth.flat = .ok flat) :
    flat.lines.map (fun l => (l.ref, l.index)) =
      [(some "Ruth 1:1".toList, 0), (some "Ruth 1:2".toList, 1), (some "Ruth 3:2".toList, 2)] := by
  have h := FlatLeaf.single (b := ruth) rfl (by decide) hflat
  rw [h.map_ref_lines, h.refs_eq]
  rfl

/-- Each of the lines of the small book is found by its reference and its number. -/
theorem exists_line_ruth {flat : FlatBook} (hflat : ruth.flat = .ok flat) {ref : Text} {index : Int}
    (h : (some ref, index) ∈
      [(some "Ruth 1:1".toList, 0), (some "Ruth 1:2".toList, 1), (some "Ruth 3:2".toList, 2)]) :
    ∃ line ∈ flat.lines, line.ref = some ref ∧ line.index = index := by
  rw [← lines_ruth hflat] at h
  obtain ⟨line, hline, he⟩ := List.mem_map.1 h
  injection he with href hindex
  exact ⟨line, hline, href, hindex⟩

end HebrewCorpus
