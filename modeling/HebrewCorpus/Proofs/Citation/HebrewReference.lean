import HebrewCorpus.Proofs.Citation.HebrewKeys
import HebrewCorpus.Proofs.Citation.OwnReference
import Mathlib.Data.List.Nodup

/-! # Lines and their Hebrew references

The Hebrew reference that flattening gives to a line is a key of the line, so it leads to that line
or to an earlier one of the book. Up to the first number from a thousand on it leads to the line
itself; from there on a numeral has several groups, and lines may share their reference.

* **`exists_place_of_lookup_heRef`**: the first line that has a Hebrew reference as a key.
* **`lookup_heRef`**: among short places that is the line with the reference.
* **`resolve_heRef_of_line`**: the way from a line to its Hebrew reference and back.
* **`resolve_heRef_thousand`**: the first and the thousandth item of a leaf share their reference. -/

namespace HebrewCorpus

open AddressKind Text

/-! ### Among the first places -/

/-- **A Hebrew reference is a key of its place.** -/
theorem heRef_mem_scopeKeys (book : Int) (titleEn titleHe : Text) {kinds : List AddressKind}
    {place : List Nat} (hk : kinds ≠ []) (hlen : place.length = kinds.length) (before : Nat)
    (titles : List Text) :
    canonical (placeHeRef titleHe kinds place) ∈
      (placeEntry book titleEn titleHe kinds place before).scopeKeys titles :=
  List.mem_append_right _
    (canonical_mem_scopeKeysOf titles (canonical_placeHeRef_ne_nil titleHe hk hlen))

/-- A key that leads to a line keeps it, whatever is registered later. -/
theorem BookScope.lookup_build_append {titles : List Text} {offset : Int} {front : List RefEntry}
    (back : List RefEntry) {key : Text} {t : LineTarget}
    (h : (build titles offset front).keys.lookup key = some t) :
    (build titles offset (front ++ back)).keys.lookup key = some t := by
  rw [keys_build_append, List.lookup_append, h]
  rfl

section Places

variable {book : Int} {titleEn titleHe : Text} {kinds : List AddressKind} {places : List (List Nat)}

/-- The entries of the first places are the first entries. -/
theorem exists_placeEntries_eq (book : Int) (titleEn titleHe : Text) (kinds : List AddressKind)
    (places : List (List Nat)) (n : Nat) :
    ∃ rest, placeEntries book titleEn titleHe kinds places =
      placeEntries book titleEn titleHe kinds (places.take n) ++ rest := by
  have hsplit : places.zipIdx =
      (places.take n).zipIdx ++ (places.drop n).zipIdx (places.take n).length := by
    conv => lhs; rw [← List.take_append_drop n places, List.zipIdx_append, Nat.zero_add]
  rw [placeEntries, hsplit, List.map_append]
  exact ⟨_, rfl⟩

/-- A place is among the first ones when it stands at one of the first indices. -/
theorem mem_zipIdx_take {place : List Nat} {i n : Nat} :
    (place, i) ∈ (places.take n).zipIdx ↔ (place, i) ∈ places.zipIdx ∧ i < n := by
  rw [List.mk_mem_zipIdx_iff_getElem?, List.mk_mem_zipIdx_iff_getElem?, List.getElem?_take]
  by_cases h : i < n <;> simp [h]

variable (hk : kinds ≠ []) (hlen : ∀ place ∈ places, place.length = kinds.length)

include hk hlen

/-- **A Hebrew reference leads to a place at or before its own.** -/
theorem exists_place_of_lookup_heRef (titles : List Text) (offset : Int) {place : List Nat} {i : Nat}
    (hp : (place, i) ∈ places.zipIdx) :
    ∃ first j, (first, j) ∈ places.zipIdx ∧ j ≤ i ∧
      (BookScope.build titles offset (placeEntries book titleEn titleHe kinds places)).keys.lookup
        (canonical (placeHeRef titleHe kinds place)) =
          some ((placeEntry book titleEn titleHe kinds first j).target offset) := by
  let key := canonical (placeHeRef titleHe kinds place)
  let front := placeEntries book titleEn titleHe kinds (places.take (i + 1))
  have hkey := heRef_mem_scopeKeys book titleEn titleHe hk
    (hlen place (List.fst_mem_of_mem_zipIdx hp)) i titles
  -- the place itself is among the first ones that register the key
  have hmem : (key, (placeEntry book titleEn titleHe kinds place i).target offset) ∈
      (BookScope.build titles offset front).keys :=
    List.mem_flatMap.2 ⟨_, List.mem_map.2 ⟨(place, i), mem_zipIdx_take.2 ⟨hp, by omega⟩, rfl⟩,
      List.mem_map.2 ⟨key, hkey, rfl⟩⟩
  have hsome : ((BookScope.build titles offset front).keys.lookup key).isSome :=
    List.lookup_isSome_iff.2 ⟨_, hmem, beq_self_eq_true key⟩
  obtain ⟨t, ht⟩ := Option.isSome_iff_exists.1 hsome
  obtain ⟨e, he, -, rfl⟩ := exists_of_lookup_flatMap ht
  obtain ⟨⟨first, j⟩, hfirst, rfl⟩ := List.mem_map.1 he
  obtain ⟨hfirst, hj⟩ := mem_zipIdx_take.1 hfirst
  obtain ⟨rest, hrest⟩ := exists_placeEntries_eq book titleEn titleHe kinds places (i + 1)
  refine ⟨first, j, hfirst, by omega, ?_⟩
  rw [hrest]
  exact BookScope.lookup_build_append rest ht

/-- **Among short places a Hebrew reference leads to its own place.** -/
theorem lookup_heRef (hnodup : places.Nodup) {n : Nat}
    (hshort : ∀ place ∈ places.take n, IsShort kinds place) {titles : List Text}
    (htitles : ∀ title ∈ titles, title ≠ [] → words title ≠ []) (offset : Int) {place : List Nat}
    {i : Nat} (hp : (place, i) ∈ places.zipIdx) (hi : i < n) :
    (BookScope.build titles offset (placeEntries book titleEn titleHe kinds places)).keys.lookup
      (canonical (placeHeRef titleHe kinds place)) =
        some ((placeEntry book titleEn titleHe kinds place i).target offset) := by
  obtain ⟨rest, hrest⟩ := exists_placeEntries_eq book titleEn titleHe kinds places n
  have hfront := mem_zipIdx_take.2 ⟨hp, hi⟩
  have hown := hlen place (List.fst_mem_of_mem_zipIdx hp)
  have hkey := heRef_mem_scopeKeys book titleEn titleHe hk hown i titles
  rw [hrest]
  refine BookScope.lookup_build_append rest (lookup_flatMap_eq_some
    (a := placeEntry book titleEn titleHe kinds place i)
    (List.mem_map.2 ⟨(place, i), hfront, rfl⟩) hkey ?_)
  intro e he hother
  obtain ⟨⟨other, j⟩, hmem, rfl⟩ := List.mem_map.1 he
  have hplace := eq_of_heRef_mem_scopeKeys hk (hshort place (List.fst_mem_of_mem_zipIdx hfront))
    (hshort other (List.fst_mem_of_mem_zipIdx hmem)) hown
    (hlen other (List.fst_mem_of_mem_zipIdx (mem_zipIdx_take.1 hmem).1)) htitles hother
  subst hplace
  rw [eq_of_mem_zipIdx hnodup hp (mem_zipIdx_take.1 hmem).1]

end Places

/-! ### Lines -/

namespace FlatLeaf

variable {b : SourceBook} {layout : LeafLayout} {flat : FlatBook} {entries : List RefEntry}
  (h : FlatLeaf b layout flat entries) (titles : List (Int × List Text))
  (offsets : List (Int × Int)) {line : Line} (hline : line ∈ flat.lines)

include h hline

/-- **The Hebrew reference of a line leads to a line at or before it.** -/
theorem exists_line_of_heRef :
    ∃ heRef, line.heRef = some heRef ∧ canonical heRef ≠ [] ∧
      ∃ first ∈ flat.lines, first.index ≤ line.index ∧
        (RefIndex.build entries titles offsets).lookup (canonical heRef) (some b.id) =
          some (b.targetOf offsets first) := by
  obtain ⟨place, i, hp, -, hheRef, hindex⟩ := h.exists_place_of_mem_lines hline
  obtain ⟨p, j, hfirst, hj, hlookup⟩ := exists_place_of_lookup_heRef h.kinds_ne_nil h.length_place
    (orderedTitles ((titles.lookup b.id).getD [])) ((offsets.lookup b.id).getD 0) hp
  obtain ⟨first, hmem, -, -, hfirstIndex⟩ := h.exists_line_of_mem_places hfirst
  refine ⟨_, hheRef, canonical_placeHeRef_ne_nil _ h.kinds_ne_nil
    (h.length_place place (List.fst_mem_of_mem_zipIdx hp)), first, hmem, by omega, ?_⟩
  rw [h.lookup_build, hlookup, ← b.targetOf_eq_target offsets hfirstIndex]

/-- **Among short places the Hebrew reference of a line leads to the line.** -/
theorem lookup_heRef {n : Nat}
    (hshort : ∀ place ∈ (leafPlaces layout.depth b.content).take n, IsShort layout.addressKinds place)
    (hn : line.index < n) :
    ∃ heRef, line.heRef = some heRef ∧ canonical heRef ≠ [] ∧
      (RefIndex.build entries titles offsets).lookup (canonical heRef) (some b.id) =
        some (b.targetOf offsets line) := by
  obtain ⟨place, i, hp, -, hheRef, hindex⟩ := h.exists_place_of_mem_lines hline
  refine ⟨_, hheRef, canonical_placeHeRef_ne_nil _ h.kinds_ne_nil
    (h.length_place place (List.fst_mem_of_mem_zipIdx hp)), ?_⟩
  rw [h.lookup_build, HebrewCorpus.lookup_heRef h.kinds_ne_nil h.length_place (nodup_leafPlaces _ _)
    hshort (fun title ht => words_ne_nil_of_mem_orderedTitles ht) _ hp (by omega),
    ← b.targetOf_eq_target offsets hindex]

end FlatLeaf

/-- Lines of a flat book are known by their numbers. -/
theorem eq_of_index_eq {b : SourceBook} {flat : FlatBook} (h : b.flat = .ok flat) {l m : Line}
    (hl : l ∈ flat.lines) (hm : m ∈ flat.lines) (hindex : l.index = m.index) : l = m := by
  have hnodup : (flat.lines.map (·.index)).Nodup := by
    rw [(wellFormed_of_flatten h).line_index]
    exact nodup_numbersFrom _ _
  exact List.inj_on_of_nodup_map hnodup hl hm hindex

/-- **The Hebrew reference of a line leads to it or to an earlier line of its book.** Of source books
with different numbers, whatever their contents, the titles by which citations may name them and the
numbers of their first lines, take one that is a leaf of one level or more. As far as the numbers in
its labels are below a thousand, the Hebrew reference of each line leads to that line, and no two of
the lines have one canonical Hebrew reference. -/
theorem resolve_heRef_of_line {books : List SourceBook} (distinct : (books.map (·.id)).Nodup)
    (titles : List (Int × List Text)) (offsets : List (Int × Int)) :
    ∃ index, indexBooks books titles offsets = .ok index ∧
      ∀ b ∈ books, ∀ layout, b.layout? = some layout → 1 ≤ layout.depth →
        ∃ flat, b.flat = .ok flat ∧
          (∀ line ∈ flat.lines, ∃ heRef, line.heRef = some heRef ∧
            ∃ first ∈ flat.lines, first.index ≤ line.index ∧
              ∀ leeway, index.resolve heRef (some b.id) leeway = some (b.targetOf offsets first)) ∧
          ∀ n : Nat, (∀ place ∈ (leafPlaces layout.depth b.content).take n,
              IsShort layout.addressKinds place) →
            ∀ line ∈ flat.lines, line.index < n → ∃ heRef, line.heRef = some heRef ∧
              (∀ leeway, index.resolve heRef (some b.id) leeway = some (b.targetOf offsets line)) ∧
              ∀ other ∈ flat.lines, other.index < n →
                other.heRef.map canonical = some (canonical heRef) → other = line := by
  obtain ⟨entries, hindex, hentries⟩ := indexBooks_eq_ok distinct titles offsets
  refine ⟨_, hindex, ?_⟩
  intro b hb layout hl hd
  obtain ⟨flat, hflat, hown⟩ := hentries b hb
  have h : FlatLeaf b layout flat entries := ⟨hl, hd, hflat, hown⟩
  refine ⟨flat, hflat, ?_, ?_⟩
  · intro line hline
    obtain ⟨heRef, hheRef, hne, first, hfirst, hle, hlookup⟩ :=
      h.exists_line_of_heRef titles offsets hline
    exact ⟨heRef, hheRef, first, hfirst, hle, RefIndex.resolve_of_lookup hne hlookup⟩
  · intro n hshort line hline hn
    obtain ⟨heRef, hheRef, hne, hlookup⟩ := h.lookup_heRef titles offsets hline hshort hn
    refine ⟨heRef, hheRef, RefIndex.resolve_of_lookup hne hlookup, ?_⟩
    intro other hother hothern hsame
    obtain ⟨otherRef, hotherRef, -, hother'⟩ := h.lookup_heRef titles offsets hother hshort hothern
    -- one key leads to both lines
    rw [hotherRef, Option.map_some] at hsame
    rw [Option.some.inj hsame, hlookup] at hother'
    have htarget := congrArg LineTarget.index (Option.some.inj hother')
    exact eq_of_index_eq hflat hother hline htarget.symm

/-- The small book by itself: the second verse of the first chapter. -/
theorem resolve_heRef_of_line_ruth :
    ∃ index, indexBooks [ruth] (bookTitles [ruth]) [(7, 100)] = .ok index ∧
      index.resolve "רות א, ב".toList (some 7) ⟨true, false⟩ = some ⟨7, 101, 1⟩ := by
  obtain ⟨index, hindex, hbooks⟩ := resolve_heRef_of_line (show ([ruth].map (·.id)).Nodup by decide)
    (bookTitles [ruth]) [(7, 100)]
  obtain ⟨flat, hflat, -, hshort⟩ := hbooks ruth List.mem_cons_self _ rfl (by decide)
  have h := FlatLeaf.single (b := ruth) rfl (by decide) hflat
  have hchapter : (chapter.labelsAt 0).hebrew = "א".toList :=
    (hebrew_of_lt (by decide)).trans (by decide)
  have hverse : (verse.labelsAt 1).hebrew = "ב".toList :=
    (hebrew_of_lt (by decide)).trans (by decide)
  -- the place of the verse is the second one
  obtain ⟨line, hline, -, hheRef, hnumber⟩ :=
    h.exists_line_of_mem_places (show ([0, 1], 1) ∈ (leafPlaces 2 ruth.content).zipIdx by decide)
  obtain ⟨heRef, hheRef', hresolve, -⟩ :=
    hshort 3 (by decide) line hline (by rw [hnumber]; decide)
  obtain rfl : heRef = "רות א, ב".toList := by
    rw [hheRef] at hheRef'
    rw [← Option.some.inj hheRef', placeHeRef, hebrewLabels]
    simp only [List.zipWith_cons_cons, hchapter, hverse]
    rfl
  refine ⟨index, hindex, (hresolve ⟨true, false⟩).trans ?_⟩
  rw [SourceBook.targetOf, hnumber]
  rfl

/-- A book of one level with a thousand items, all blank but the first and the last. -/
def thousand : SourceBook where
  id := 7
  titleEn := "Ruth".toList
  titleHe := "רות".toList
  schema :=
    .leaf ⟨"Ruth".toList, "Ruth".toList, "רות".toList⟩ ⟨1, ["Verse".toList], [], [.verse], []⟩
  content :=
    .array (.text "In the days".toList :: List.replicate 998 (.text []) ++ [.text "David".toList])
  accepted := .leaf (by decide)

/-- The two references of the book with a thousand items. -/
theorem refs_thousand {flat : FlatBook} (hflat : thousand.flat = .ok flat) :
    flat.refs = [⟨"Ruth 1".toList, "רות א".toList, 1, 7⟩,
      ⟨"Ruth 1000".toList, "רות א ".toList, 2, 7⟩] := by
  have h := FlatLeaf.single (b := thousand) rfl (by decide) hflat
  have hplaces : leafPlaces 1 thousand.content = [[0], [999]] := by decide +kernel
  have hfirst : (verse.labelsAt 0).hebrew = "א".toList :=
    (hebrew_of_lt (by decide)).trans (by decide)
  -- the group below the thousand is empty
  have hlast : (verse.labelsAt 999).hebrew = "א ".toList := by
    rw [hebrew_eq, show verse.numberAt 999 = 1000 from rfl, gematria_natCast (by decide),
      gematriaGroups, if_neg (by decide), gematriaGroups, if_pos (by decide)]
    decide
  rw [h.refs_eq, hplaces]
  simp only [placeEntries, placeEntry, placeHeRef, hebrewLabels, List.zipIdx_cons, List.map_cons,
    List.zipWith_cons_cons, hfirst, hlast]
  rfl

/-- **The first and the thousandth item of a leaf share their Hebrew reference**, and that of the
thousandth leads to the first. -/
theorem resolve_heRef_thousand :
    ∃ index flat, indexBooks [thousand] (bookTitles [thousand]) [(7, 100)] = .ok index ∧
      thousand.flat = .ok flat ∧
        flat.lines.map (fun l => (l.heRef, l.index)) =
          [(some "רות א".toList, 0), (some "רות א ".toList, 1)] ∧
          canonical "רות א".toList = canonical "רות א ".toList ∧
            index.resolve "רות א ".toList (some 7) ⟨true, true⟩ = some ⟨7, 100, 0⟩ := by
  obtain ⟨flat, hflat⟩ := thousand.flat_eq_ok
  have h := FlatLeaf.single (b := thousand) rfl (by decide) hflat
  refine ⟨_, flat, indexBooks_singleton hflat _ _, hflat, ?_, by decide, ?_⟩
  · rw [h.map_heRef_lines, refs_thousand hflat]
    rfl
  · rw [refs_thousand hflat]
    decide +kernel

end HebrewCorpus
