import HebrewCorpus.Proofs.Citation.AddressKeys

/-! # Citations of sections

A section of a leaf is cited by the labels of its outer levels alone. The key of such a citation is
continued by `:1` until it is as deep as the book, so it opens the section at its first line, when
that line has the label 1 on all levels below.

* **`sectionRef`**: the citation of the section of a place, by the labels of some levels.
* **`addressWord_eq_append_firsts`**: the address of the first place of a section.
* **`IndexedLeaf.resolve_section`**, **`resolve_sectionRef`**: the citation of a section leads to its
  first line. -/

namespace HebrewCorpus

open AddressKind Text

/-- **The citation of the section of a place**: the title and the labels of the outer levels. -/
def sectionRef (title : Text) (kinds : List AddressKind) (place : List Nat) (levels : Nat) : Text :=
  title ++ ' ' :: joinWith [':'] ((englishLabels kinds place).take levels)

/-- Labels of 1 behind others are `:1` as many times. -/
theorem joinWith_append_replicate {front : List Text} (h : front ≠ []) (times : Nat) :
    joinWith [':'] (front ++ List.replicate times "1".toList) =
      joinWith [':'] front ++ RefIndex.firsts times := by
  induction times generalizing front with
  | zero => rw [List.replicate_zero, List.append_nil, RefIndex.firsts, List.append_nil]
  | succ times ih =>
    -- the first of the labels belongs to the front
    rw [List.replicate_succ, List.append_cons, ih (by simp), joinWith_append [':'] h (by simp),
      joinWith_singleton, RefIndex.firsts, List.append_assoc, List.append_assoc]
    rfl

/-- The labels of the outer levels are those of the place that is cut off below them. -/
theorem take_englishLabels (kinds : List AddressKind) (place : List Nat) (levels : Nat) :
    (englishLabels kinds place).take levels =
      englishLabels (kinds.take levels) (place.take levels) :=
  List.take_zipWith

/-- **The address of the first place of a section** is that of the section with `:1` for each of the
levels below. -/
theorem addressWord_eq_append_firsts {kinds : List AddressKind} {place : List Nat} {levels : Nat}
    (hone : ∀ label ∈ (englishLabels kinds place).drop levels, label = "1".toList)
    (h : (englishLabels kinds place).take levels ≠ []) (hlen : place.length = kinds.length) :
    addressWord kinds place =
      joinWith [':'] ((englishLabels kinds place).take levels) ++
        RefIndex.firsts (kinds.length - levels) := by
  have hrest : (englishLabels kinds place).drop levels =
      List.replicate (kinds.length - levels) "1".toList := by
    rw [List.eq_replicate_iff, List.length_drop, length_englishLabels hlen]
    exact ⟨rfl, hone⟩
  rw [addressWord, ← joinWith_append_replicate h, ← hrest, List.take_append_drop]

/-- The labels of a section lead to the line at the address of its first place. -/
theorem IndexedLeaf.resolve_section {b : SourceBook} {layout : LeafLayout} {flat : FlatBook}
    {entries : List RefEntry} (h : IndexedLeaf b layout flat entries)
    (titles : List (Int × List Text)) (offsets : List (Int × Int)) {place : List Nat} {levels : Nat}
    (hp : place ∈ leafPlaces layout.depth b.content) (hlevels : 1 ≤ levels)
    (hlt : levels < layout.depth)
    (hone : ∀ label ∈ (englishLabels layout.addressKinds place).drop levels, label = "1".toList)
    {t : LineTarget}
    (htarget : b.targetAt? flat offsets (addressWord layout.addressKinds place) = some t)
    (leeway : RefIndex.Leeway) :
    (RefIndex.build entries titles offsets).resolve
      (sectionRef b.titleEn layout.addressKinds place levels) (some b.id) leeway = some t := by
  have hkinds := h.flatLeaf.length_kinds
  have hlen := h.flatLeaf.length_place place hp
  let w := joinWith [':'] ((englishLabels layout.addressKinds place).take levels)
  have htake : (englishLabels layout.addressKinds place).take levels ≠ [] := by
    refine List.ne_nil_of_length_pos ?_
    rw [List.length_take, length_englishLabels hlen]
    omega
  have hw : IsAddress w := by
    show IsAddress (joinWith _ _)
    rw [take_englishLabels] at htake ⊢
    exact .addressWord htake
  -- the address of the line is the one that the key is continued to
  have haddress : addressWord layout.addressKinds place =
      w ++ RefIndex.firsts (layout.depth - levels) := by
    rw [addressWord_eq_append_firsts hone htake hlen, hkinds]
  have hcount : w.count ':' + 1 + (layout.depth - levels) = layout.depth := by
    have hall := count_addressWord hlen h.flatLeaf.kinds_ne_nil
    rw [haddress, List.count_append, RefIndex.count_firsts, hkinds] at hall
    omega
  have hkey : canonical (sectionRef b.titleEn layout.addressKinds place levels) =
      canonical b.titleEn ++ ' ' :: w := hw.canonical_append h.titled
  refine RefIndex.resolve_of_matchKey (by simp [hkey]) ?_ leeway
  rw [hkey, Option.some_or, h.matchKey_eq titles offsets hw hcount, ← haddress, htarget]

/-- **The citation of a section leads to its first line.** For every line of a book that is one leaf
of two levels or more and whose English title has a canonical form: if the labels of the line are
all 1 below some of the outer levels, the labels of those levels lead to the line, whatever the
leeway. -/
theorem resolve_sectionRef {books : List SourceBook} (distinct : (books.map (·.id)).Nodup)
    (titles : List (Int × List Text)) (offsets : List (Int × Int)) :
    ∃ index, indexBooks books titles offsets = .ok index ∧
      ∀ b ∈ books, ∀ layout, b.layout? = some layout → 2 ≤ layout.depth →
        canonical b.titleEn ≠ [] →
          ∃ flat, b.flat = .ok flat ∧ ∀ line ∈ flat.lines,
            ∃ place ∈ leafPlaces layout.depth b.content,
              line.ref = some (placeRef b.titleEn layout.addressKinds place) ∧
                ∀ levels, 1 ≤ levels → levels < layout.depth →
                  (∀ label ∈ (englishLabels layout.addressKinds place).drop levels,
                    label = "1".toList) →
                  ∀ leeway, index.resolve (sectionRef b.titleEn layout.addressKinds place levels)
                    (some b.id) leeway = some (b.targetOf offsets line) := by
  obtain ⟨entries, hindex, hleaf⟩ := exists_indexedLeaf distinct titles offsets
  refine ⟨_, hindex, ?_⟩
  intro b hb layout hl hd ht
  obtain ⟨flat, h⟩ := hleaf b hb layout hl (by omega) ht
  refine ⟨flat, h.flattened, fun line hline => ?_⟩
  obtain ⟨place, hp, href, htarget⟩ := h.exists_place_of_mem_lines offsets hline
  refine ⟨place, hp, href, ?_⟩
  intro levels hlevels hlt hone leeway
  exact h.resolve_section titles offsets hp hlevels hlt hone htarget leeway

/-- The small book by itself: its first chapter is cited without a verse. -/
theorem resolve_sectionRef_ruth :
    ∃ index, indexBooks [ruth] (bookTitles [ruth]) [(7, 100)] = .ok index ∧
      ∀ leeway, index.resolve "Ruth 1".toList (some 7) leeway = some ⟨7, 100, 0⟩ := by
  obtain ⟨index, hindex, hbooks⟩ :=
    resolve_sectionRef (show ([ruth].map (·.id)).Nodup by decide) (bookTitles [ruth]) [(7, 100)]
  obtain ⟨flat, hflat, hlines⟩ := hbooks ruth List.mem_cons_self _ rfl (by decide) (by decide)
  obtain ⟨line, hline, hlineRef, hlineIndex⟩ :=
    exists_line_ruth hflat (show (some "Ruth 1:1".toList, (0 : Int)) ∈ _ by simp)
  obtain ⟨place, hp, href, hresolve⟩ := hlines line hline
  -- the first place of the book is the one with the reference of the line
  have hplaces : ∀ p ∈ leafPlaces 2 ruth.content,
      placeRef ruth.titleEn [.chapter, .verse] p = "Ruth 1:1".toList → p = [0, 0] := by decide
  obtain rfl : place = [0, 0] :=
    hplaces place hp (Option.some.inj (href.symm.trans hlineRef))
  refine ⟨index, hindex, fun leeway => ?_⟩
  refine (hresolve 1 (by decide) (by decide) (by decide) leeway).trans ?_
  rw [SourceBook.targetOf, hlineIndex]
  rfl

end HebrewCorpus
