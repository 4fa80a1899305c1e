import HebrewCorpus.Proofs.Citation.SourceBook

/-! # Lines are found by their own references

The reference that flattening gives to a line leads back to that line. Within the line's own book it
always does; in the whole corpus it does as soon as no other book lays claim to the reference by one
of its titles.

* **`SourceBook.lookup_line`**: the reference of a line is a key of its book, and of no other line.
* **`SourceBook.bookFor_line`**: the book of a reference that no other book lays claim to.
* **`resolve_ref_of_line`**: the round trip from a line to its reference and back. -/

namespace HebrewCorpus

open AddressKind Text

/-- **A key that no other book lays claim to**: it neither is a canonical title of another book nor
starts with one and a space. -/
def Unclaimed (books : List SourceBook) (b : SourceBook) (key : Text) : Prop :=
  ∀ other ∈ books, other.id ≠ b.id → ∀ title ∈ titleKeys other.titles,
    key ≠ title ∧ ¬ title ++ [' '] <+: key

namespace SourceBook

/-- **The target of a line** of the book, by the numbers of the first lines of the books. -/
def targetOf (b : SourceBook) (offsets : List (Int × Int)) (line : Line) : LineTarget :=
  ⟨b.id, (offsets.lookup b.id).getD 0 + line.index, line.index⟩

/-- The target of the line of a place is the one that its entry leads to. -/
theorem targetOf_eq_target (b : SourceBook) (offsets : List (Int × Int)) {line : Line} {i : Nat}
    (hindex : line.index = i) (titleEn titleHe : Text) (kinds : List AddressKind)
    (place : List Nat) :
    b.targetOf offsets line =
      (placeEntry b.id titleEn titleHe kinds place i).target ((offsets.lookup b.id).getD 0) := by
  simp [targetOf, RefEntry.target, placeEntry, hindex]

/-- **The reference of a line is a key of its book that leads to the line**, and it starts with the
book's English title. -/
theorem lookup_line {b : SourceBook} {layout : LeafLayout} {flat : FlatBook}
    {entries : List RefEntry} (h : IndexedLeaf b layout flat entries) {line : Line}
    (hline : line ∈ flat.lines) (titles : List (Int × List Text)) (offsets : List (Int × Int)) :
    ∃ ref, line.ref = some ref ∧ canonical b.titleEn ++ [' '] <+: canonical ref ∧
      (RefIndex.build entries titles offsets).lookup (canonical ref) (some b.id) =
        some (b.targetOf offsets line) := by
  have hleaf := h.flatLeaf
  obtain ⟨place, i, hplace, href, -, hindex⟩ := hleaf.exists_place_of_mem_lines hline
  have hlabels := englishLabels_ne_nil hleaf.kinds_ne_nil
    (hleaf.length_place place (List.fst_mem_of_mem_zipIdx hplace))
  refine ⟨placeRef b.titleEn layout.addressKinds place, href, ?_, ?_⟩
  · refine ⟨addressWord layout.addressKinds place, ?_⟩
    rw [canonical_placeRef h.titled hlabels, List.append_assoc, List.singleton_append]
  · rw [hleaf.lookup_build, lookup_place hleaf.kinds_ne_nil hleaf.length_place (nodup_leafPlaces _ _)
      _ _ hplace, ← b.targetOf_eq_target offsets hindex]

/-- **A reference that no other book lays claim to** belongs to the book whose title it starts
with. -/
theorem bookFor_line {b : SourceBook} {books : List SourceBook} (hb : b ∈ books)
    (ht : canonical b.titleEn ≠ []) {key : Text} (hkey : canonical b.titleEn ++ [' '] <+: key)
    (hfree : Unclaimed books b key) (entries : List RefEntry) (offsets : List (Int × Int)) :
    (RefIndex.build entries (bookTitles books) offsets).bookFor key = some b.id := by
  have htitle : canonical b.titleEn ∈ orderedTitles b.titles :=
    mem_orderedTitles.2 (mem_distinctKeys.2 ⟨by simp [titles], ht⟩)
  refine RefIndex.bookFor_build entries offsets (List.mem_map_of_mem hb) htitle
    (startsWithTitle_iff.2 (.inr hkey)) ?_
  intro p hp t hmem hstarts
  obtain ⟨other, hother, rfl⟩ := List.mem_map.1 hp
  by_cases hid : other.id = b.id
  · exact hid
  · obtain ⟨hne, hnot⟩ := hfree other hother hid t (mem_orderedTitles.1 hmem)
    rcases startsWithTitle_iff.1 hstarts with h | h
    · exact absurd h hne
    · exact absurd h hnot

end SourceBook

/-- **Every line is found by its own reference.** Of source books with different numbers, whatever
their contents and the numbers of their first lines, take one that is a leaf of one level or more
and whose English title has a canonical form; each book is named by its English and its Hebrew title.
The reference of each of the lines leads to that line when the book is given, and also without it when
no other book lays claim to the reference. -/
theorem resolve_ref_of_line {books : List SourceBook} (distinct : (books.map (·.id)).Nodup)
    (offsets : List (Int × Int)) :
    ∃ index, indexBooks books (bookTitles books) offsets = .ok index ∧
      ∀ b ∈ books, ∀ layout, b.layout? = some layout → 1 ≤ layout.depth →
        canonical b.titleEn ≠ [] →
          ∃ flat, b.flat = .ok flat ∧ ∀ line ∈ flat.lines, ∃ ref, line.ref = some ref ∧
            (∀ leeway, index.resolve ref (some b.id) leeway = some (b.targetOf offsets line)) ∧
            (Unclaimed books b (canonical ref) →
              ∀ leeway, index.resolve ref none leeway = some (b.targetOf offsets line)) := by
  obtain ⟨entries, hindex, hentries⟩ := indexBooks_eq_ok distinct (bookTitles books) offsets
  refine ⟨_, hindex, ?_⟩
  intro b hb layout hl hd ht
  obtain ⟨flat, hflat, hown⟩ := hentries b hb
  refine ⟨flat, hflat, ?_⟩
  intro line hline
  obtain ⟨ref, href, hstarts, hlookup⟩ :=
    SourceBook.lookup_line ⟨hl, hd, ht, hflat, hown⟩ hline (bookTitles books) offsets
  have hkey : canonical ref ≠ [] := by
    intro hn
    rw [hn] at hstarts
    have := List.prefix_nil.1 hstarts
    simp at this
  refine ⟨ref, href, ?_, ?_⟩
  · intro leeway
    exact RefIndex.resolve_of_lookup hkey hlookup leeway
  · intro hfree leeway
    have hbook := SourceBook.bookFor_line hb ht hstarts hfree entries offsets
    refine RefIndex.resolve_of_lookup hkey ?_ leeway
    rw [Option.none_or, hbook]
    exact hlookup

/-- The small book by itself: its last line is found with and without the book. -/
theorem resolve_ref_of_line_ruth :
    ∃ index, indexBooks [ruth] (bookTitles [ruth]) [(7, 100)] = .ok index ∧
      index.resolve "Ruth 3:2".toList (some 7) ⟨false, false⟩ = some ⟨7, 102, 2⟩ ∧
        index.resolve "Ruth 3:2".toList none ⟨true, true⟩ = some ⟨7, 102, 2⟩ := by
  obtain ⟨index, hindex, hlines⟩ :=
    resolve_ref_of_line (show ([ruth].map (·.id)).Nodup by decide) [(7, 100)]
  obtain ⟨flat, hflat, hfound⟩ := hlines ruth List.mem_cons_self _ rfl (by decide) (by decide)
  have hmem : (some "Ruth 3:2".toList, (2 : Int)) ∈ flat.lines.map fun l => (l.ref, l.index) := by
    rw [lines_ruth hflat]
    exact List.mem_cons_of_mem _ (List.mem_cons_of_mem _ List.mem_cons_self)
  obtain ⟨line, hline, he⟩ := List.mem_map.1 hmem
  injection he with hlineRef hindexOf
  obtain ⟨ref, href, hgiven, hfree⟩ := hfound line hline
  obtain rfl : ref = "Ruth 3:2".toList := Option.some.inj (href.symm.trans hlineRef)
  have htarget : ruth.targetOf [(7, 100)] line = ⟨7, 102, 2⟩ := by
    rw [SourceBook.targetOf, hindexOf]
    rfl
  refine ⟨index, hindex, ?_, ?_⟩
  · rw [← htarget]
    exact hgiven _
  · have hunclaimed : Unclaimed [ruth] ruth (canonical "Ruth 3:2".toList) := by
      intro other hother hne
      exact absurd (List.mem_singleton.1 hother ▸ rfl) hne
    rw [← htarget]
    exact hfree hunclaimed _

end HebrewCorpus
