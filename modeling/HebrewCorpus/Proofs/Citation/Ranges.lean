import HebrewCorpus.Proofs.Citation.Tiers
import HebrewCorpus.Proofs.Text.Digit

/-! # Citations of ranges

A range is cited by the reference of its first line, a hyphen and the number of its last line. In a
book that is one leaf no key ends in such a range, so the strict tiers find nothing and what stands
in front of the first hyphen decides. For a title without hyphens that is the reference itself. For a
title with one it is the front of the title, which is the same for every line of the book.

* **`IsRangeEnd`**, **`rangeRef`**: the ends of ranges, and their citations.
* **`FlatLeaf.tryKey_eq_none`**: a key that ends in a range leads nowhere.
* **`Tier.keys_append`**: the looser keys of a citation behind its first hyphen.
* **`resolve_rangeRef`**: the lines that ranges lead to. -/

namespace HebrewCorpus

open AddressKind Text

/-! ### Ranges -/

/-- **The end of a range**: digit signs of any script, and colons. -/
def IsRangeEnd (e : Text) : Prop := ∀ c ∈ e, c = ':' ∨ isDigitSign c = true

/-- **The citation of a range** from a reference on. -/
def rangeRef (ref e : Text) : Text := ref ++ '-' :: e

/-- **A word that is looked up as a range**: a fixed word with a hyphen and a digit, and without
points. -/
structure IsRangeWord (v : Text) : Prop where
  fixed : IsFixedWord v
  hyphen : '-' ∈ v
  digit : ∃ c ∈ v, c.isDigit = true
  point : '.' ∉ v

/-- A digit sign is kept by a canonical form. -/
theorem isKept_of_isDigitSign {c : Char} (h : isDigitSign c = true) : isKept c = true :=
  isKept_of_forall (forall_mem_of_all (by decide)) h

/-- **An address, a hyphen and the end of a range** make a range. -/
theorem IsAddress.isRangeWord {w e : Text} (hw : IsAddress w) (he : IsRangeEnd e) :
    IsRangeWord (rangeRef w e) := by
  have hsigns : ∀ c ∈ ['-', ':'], isBlankChar c = false ∧ isKept c = true ∧ lowerChar c = [c] :=
    forall_mem_of_all (by decide)
  obtain ⟨d, hd, hdigit⟩ := hw.2
  refine ⟨⟨by simp [rangeRef], ?_⟩, by simp [rangeRef], ⟨d, List.mem_append_left _ hd, hdigit⟩, ?_⟩
  · intro c hc
    rcases List.mem_append.1 hc with hc | hc
    · exact hw.isFixedWord.2 c hc
    · rcases List.mem_cons.1 hc with rfl | hc
      · exact hsigns '-' (by simp)
      · rcases he c hc with rfl | hs
        · exact hsigns ':' (by simp)
        · exact ⟨isBlankChar_of_isDigitSign hs, isKept_of_isDigitSign hs,
            lowerChar_of_isDigitSign hs⟩
  · have hpoint : isDigitSign '.' = false := by decide
    simp only [rangeRef, List.mem_append, List.mem_cons, not_or]
    refine ⟨hw.point_not_mem, by decide, fun hc => ?_⟩
    simpa [hpoint] using he '.' hc

/-! ### Keys that end in a range -/

namespace FlatLeaf

variable {b : SourceBook} {layout : LeafLayout} {flat : FlatBook} {entries : List RefEntry}
  (h : FlatLeaf b layout flat entries) (titles : List (Int × List Text))
  (offsets : List (Int × Int)) {v key : Text}

include h

/-- **A key that ends in a range leads nowhere**, its readings and continuations included. -/
theorem tryKey_eq_none (hv : IsRangeWord v) (hend : EndsIn v key) :
    (RefIndex.build entries titles offsets).tryKey (some b.id) key = none := by
  cases htry : (RefIndex.build entries titles offsets).tryKey (some b.id) key with
  | none => rfl
  | some t =>
    unfold RefIndex.tryKey at htry
    split at htry
    · cases htry
    · obtain ⟨reading, hr, j, hlookup⟩ := RefIndex.exists_of_matchKey htry
      have hreading := endsIn_of_mem_dottedVariants hv.fixed.isWord hv.point hend hr
      have hspace : ' ' ∉ v ++ RefIndex.firsts j := by
        simp [hv.fixed.isWord.space_not_mem, space_not_mem_firsts]
      obtain ⟨d, hd, hdigit⟩ := hv.digit
      have hnone := h.lookup_eq_none titles offsets (hreading.append_right (RefIndex.firsts j)) hspace
        ⟨'-', List.mem_append_left _ hv.hyphen, by decide⟩ ⟨d, List.mem_append_left _ hd, hdigit⟩
      rw [hnone] at hlookup
      cases hlookup

end FlatLeaf

/-! ### Strict and looser tiers -/

namespace Tier

/-- The tiers that look a citation up as it is. -/
def strict : List Tier := [.exact, .aliasStripped, .numericTail]

/-- The tiers behind the strict ones that a leeway admits. -/
def looser (leeway : RefIndex.Leeway) : List Tier :=
  .rangeStart :: if leeway.chapter then [.chapterStart, .withinChapter] else []

/-- The admitted tiers are the strict ones and the looser ones. -/
theorem filter_chain (leeway : RefIndex.Leeway) :
    (chain.filter fun t => leeway.chapter || !t.isFallback) = strict ++ looser leeway := by
  unfold looser
  cases leeway.chapter <;> rfl

/-- The keys of the strict tiers are direct keys of the citation. -/
theorem exists_keys_of_mem_strict (q : KeyQuery) {tier : Tier} (h : tier ∈ strict) :
    ∃ keys, tier.keys q = .ok keys ∧ ∀ key ∈ keys, key ∈ q.directKeys q.key := by
  simp only [strict, List.mem_cons, List.not_mem_nil, or_false] at h
  rcases h with rfl | rfl | rfl
  · exact ⟨_, rfl, by simp [KeyQuery.directKeys]⟩
  · exact ⟨_, rfl, by simp [KeyQuery.directKeys]⟩
  · exact ⟨_, rfl, fun key hkey => List.mem_append_right _ hkey⟩

end Tier

/-- The start of a range is what stands in front of the first hyphen. -/
theorem rangeStart?_append {start : Text} (hhyphen : '-' ∉ start) (htrim : trim start = start)
    (hne : start ≠ []) (back : Text) : rangeStart? (start ++ '-' :: back) = some start := by
  rw [rangeStart?, cutAt_append hhyphen]
  simp [htrim, hne]

/-- A key with a start of a range has a hyphen, and what follows it does not count. -/
theorem cutAt_hyphen_append {front start : Text} (h : rangeStart? front = some start)
    (back : Text) :
    (cutAt '-' (front ++ back)).1 = (cutAt '-' front).1 ∧
      rangeStart? (front ++ back) = some start := by
  have hhyphen : '-' ∈ front := by
    by_cases hm : '-' ∈ front
    · exact hm
    · rw [rangeStart?_eq_none hm] at h
      cases h
  obtain ⟨before, rest, rfl, hbefore⟩ := List.eq_append_cons_of_mem hhyphen
  rw [rangeStart?, cutAt_append hbefore] at h
  have hcut : cutAt '-' (before ++ '-' :: rest ++ back) = (before, some (rest ++ back)) := by
    rw [List.append_assoc, List.cons_append, cutAt_append hbefore]
  rw [rangeStart?, hcut, cutAt_append hbefore]
  exact ⟨rfl, h⟩

/-- **The looser keys of a citation** depend on what stands in front of its first hyphen. -/
theorem Tier.keys_append {front start : Text} (h : rangeStart? front = some start) (back : Text)
    (titles : List Text) (allowTail : Bool) {leeway : RefIndex.Leeway} {tier : Tier}
    (ht : tier ∈ looser leeway) :
    tier.keys ⟨front ++ back, titles, allowTail⟩ = tier.keys ⟨front, titles, allowTail⟩ := by
  obtain ⟨hcut, hstart⟩ := cutAt_hyphen_append h back
  have htier : tier = .rangeStart ∨ tier = .chapterStart ∨ tier = .withinChapter := by
    rcases List.mem_cons.1 ht with rfl | ht
    · exact .inl rfl
    · split at ht <;> simp_all
  rcases htier with rfl | rfl | rfl
  · simp [keys, h, hstart, KeyQuery.directKeys]
  · simp [keys, KeyQuery.chapterOf, hcut, KeyQuery.directKeys]
  · simp only [keys, KeyQuery.lastNumber?, h, hstart, Option.getD_some]
    rfl

/-! ### Resolution of ranges -/

namespace IndexedLeaf

variable {b : SourceBook} {layout : LeafLayout} {flat : FlatBook} {entries : List RefEntry}
  (h : IndexedLeaf b layout flat entries) (titles : List (Int × List Text))
  (offsets : List (Int × Int)) {w e : Text} (hw : IsAddress w) (he : IsRangeEnd e)
  (leeway : RefIndex.Leeway)

include h hw

include he in
/-- **A range is left to the looser tiers.** -/
theorem resolve_range :
    (RefIndex.build entries titles offsets).resolve (b.titleEn ++ ' ' :: rangeRef w e) (some b.id)
        leeway =
      (Tier.looser leeway).findSome? ((RefIndex.build entries titles offsets).matchTier
        ⟨canonical b.titleEn ++ ' ' :: rangeRef w e,
          (RefIndex.build entries titles offsets).titlesOf b.id, leeway.tail⟩ (some b.id)) := by
  let index := RefIndex.build entries titles offsets
  let q : KeyQuery :=
    ⟨canonical b.titleEn ++ ' ' :: rangeRef w e, index.titlesOf b.id, leeway.tail⟩
  have hv := hw.isRangeWord he
  have hkey : canonical (b.titleEn ++ ' ' :: rangeRef w e) = q.key :=
    hv.fixed.canonical_append h.titled
  have hstrict : Tier.strict.findSome? (index.matchTier q (some b.id)) = none := by
    rw [List.findSome?_eq_none_iff]
    intro tier ht
    obtain ⟨keys, hkeys, hdirect⟩ := Tier.exists_keys_of_mem_strict q ht
    rw [RefIndex.matchTier_of_keys hkeys, List.findSome?_eq_none_iff]
    intro key hkey
    exact h.flatLeaf.tryKey_eq_none titles offsets hv
      (endsIn_of_mem_directKeys hv.fixed (hdirect key hkey))
  rw [RefIndex.resolve_eq_findSome? _ _ _ (by rw [hkey]; simp [q]), hkey, Tier.filter_chain,
    List.findSome?_append]
  show (Tier.strict.findSome? (index.matchTier q (some b.id))).or _ = _
  rw [hstrict, Option.none_or]

/-- **Behind a title without hyphens** a range is cut at the end of the address. -/
theorem matchTier_rangeStart_append {t : LineTarget} (hhyphen : '-' ∉ canonical b.titleEn)
    (hlookup : (RefIndex.build entries titles offsets).lookup (canonical b.titleEn ++ ' ' :: w)
      (some b.id) = some t) (aliases : List Text) (allowTail : Bool) :
    (RefIndex.build entries titles offsets).matchTier
        ⟨canonical b.titleEn ++ ' ' :: rangeRef w e, aliases, allowTail⟩ (some b.id) .rangeStart =
      some t := by
  let start := canonical b.titleEn ++ ' ' :: w
  have hne : start ≠ [] := by simp [start]
  have hsqueeze : squeeze start = start := by
    have hcanonical := squeeze_canonical (b.titleEn ++ ' ' :: w)
    rwa [hw.canonical_append h.titled] at hcanonical
  have htrim : trim start = start := by
    rw [← hsqueeze, trim_squeeze]
  have hno : '-' ∉ start := by
    simp [start, hhyphen, hw.hyphen_not_mem]
  have hcut : rangeStart? (canonical b.titleEn ++ ' ' :: rangeRef w e) = some start := by
    rw [← rangeStart?_append hno htrim hne e]
    simp [rangeRef, start]
  have htry : (RefIndex.build entries titles offsets).tryKey (some b.id) start = some t := by
    rw [RefIndex.tryKey, if_neg (by simpa using hne)]
    exact RefIndex.matchKey_of_lookup hne hsqueeze hlookup _
  rw [RefIndex.matchTier_of_keys (by rw [Tier.keys, hcut, Option.map_some, Option.getD_some])]
  simp [KeyQuery.directKeys, htry]

end IndexedLeaf

/-- **A range leads to its first line** when the title of the book has no hyphen: for every line of a
book that is one leaf, whatever the end of the range and the leeway. When something stands in front
of a hyphen in the title, all ranges of the book have one and the same answer. -/
theorem resolve_rangeRef {books : List SourceBook} (distinct : (books.map (·.id)).Nodup)
    (titles : List (Int × List Text)) (offsets : List (Int × Int)) :
    ∃ index, indexBooks books titles offsets = .ok index ∧
      ∀ b ∈ books, ∀ layout, b.layout? = some layout → 1 ≤ layout.depth →
        canonical b.titleEn ≠ [] →
          ∃ flat, b.flat = .ok flat ∧
            ('-' ∉ canonical b.titleEn → ∀ line ∈ flat.lines, ∃ ref, line.ref = some ref ∧
              ∀ e, IsRangeEnd e → ∀ leeway,
                index.resolve (rangeRef ref e) (some b.id) leeway =
                  some (b.targetOf offsets line)) ∧
            ((rangeStart? (canonical b.titleEn)).isSome → ∀ leeway, ∃ answer,
              ∀ line ∈ flat.lines, ∃ ref, line.ref = some ref ∧ ∀ e, IsRangeEnd e →
                index.resolve (rangeRef ref e) (some b.id) leeway = answer) := by
  obtain ⟨entries, hindex, hentries⟩ := indexBooks_eq_ok distinct titles offsets
  refine ⟨_, hindex, ?_⟩
  intro b hb layout hl hd ht
  obtain ⟨flat, hflat, hown⟩ := hentries b hb
  have h : IndexedLeaf b layout flat entries := ⟨hl, hd, ht, hflat, hown⟩
  let index := RefIndex.build entries titles offsets
  -- the reference of a line is the title and an address
  have haddress (line : Line) (hline : line ∈ flat.lines) :
      ∃ w, IsAddress w ∧ line.ref = some (b.titleEn ++ ' ' :: w) := by
    obtain ⟨place, i, hp, href, -, -⟩ := h.flatLeaf.exists_place_of_mem_lines hline
    have hlabels := englishLabels_ne_nil h.flatLeaf.kinds_ne_nil
      (h.flatLeaf.length_place place (List.fst_mem_of_mem_zipIdx hp))
    exact ⟨_, .addressWord hlabels, href⟩
  have hcite (w e : Text) : rangeRef (b.titleEn ++ ' ' :: w) e = b.titleEn ++ ' ' :: rangeRef w e := by
    simp [rangeRef]
  refine ⟨flat, hflat, ?_, ?_⟩
  · intro hhyphen line hline
    obtain ⟨w, hw, href⟩ := haddress line hline
    refine ⟨_, href, fun e he leeway => ?_⟩
    obtain ⟨ref, href', -, hlookup⟩ := SourceBook.lookup_line h hline titles offsets
    obtain rfl : ref = b.titleEn ++ ' ' :: w := Option.some.inj (href'.symm.trans href)
    rw [hw.canonical_append ht] at hlookup
    have hstart := h.matchTier_rangeStart_append (e := e) titles offsets hw hhyphen hlookup
      (index.titlesOf b.id) leeway.tail
    rw [hcite, h.resolve_range titles offsets hw he, Tier.looser, List.findSome?_cons, hstart]
  · intro hsome leeway
    obtain ⟨start, hstart⟩ := Option.isSome_iff_exists.1 hsome
    refine ⟨(Tier.looser leeway).findSome? (index.matchTier
      ⟨canonical b.titleEn, index.titlesOf b.id, leeway.tail⟩ (some b.id)), ?_⟩
    intro line hline
    obtain ⟨w, hw, href⟩ := haddress line hline
    refine ⟨_, href, fun e he => ?_⟩
    rw [hcite, h.resolve_range titles offsets hw he]
    refine findSome?_congr fun tier htier => ?_
    rw [RefIndex.matchTier, RefIndex.matchTier, Tier.keys_append hstart _ _ _ htier]

/-- A small book with a hyphen in its title. -/
def betEl : SourceBook where
  id := 8
  titleEn := "Beit-El".toList
  titleHe := "בית-אל".toList
  schema :=
    .leaf ⟨"Beit-El".toList, "Beit-El".toList, "בית-אל".toList⟩
      ⟨2, ["Chapter".toList, "Verse".toList], [], [.chapter, .verse], []⟩
  content := .array [.array [.text "And he went up".toList, .text "to the top".toList]]
  accepted := .leaf (by decide)

/-- The references of the book with a hyphen in its title. -/
theorem refs_betEl {flat : FlatBook} (hflat : betEl.flat = .ok flat) :
    flat.refs = [⟨"Beit-El 1:1".toList, "בית-אל א, א".toList, 1, 8⟩,
      ⟨"Beit-El 1:2".toList, "בית-אל א, ב".toList, 2, 8⟩] := by
  have h := FlatLeaf.single (b := betEl) rfl (by decide) hflat
  have hplaces : leafPlaces 2 betEl.content = [[0, 0], [0, 1]] := by decide
  have hchapter : (chapter.labelsAt 0).hebrew = "א".toList :=
    (hebrew_of_lt (by decide)).trans (by decide)
  have hfirst : (verse.labelsAt 0).hebrew = "א".toList :=
    (hebrew_of_lt (by decide)).trans (by decide)
  have hsecond : (verse.labelsAt 1).hebrew = "ב".toList :=
    (hebrew_of_lt (by decide)).trans (by decide)
  rw [h.refs_eq, hplaces]
  simp only [placeEntries, placeEntry, placeHeRef, hebrewLabels, List.zipIdx_cons, List.map_cons,
    List.zipWith_cons_cons, hchapter, hfirst, hsecond]
  rfl

/-- The lines of the book with a hyphen in its title: their references and their numbers. -/
theorem lines_betEl {flat : FlatBook} (hflat : betEl.flat = .ok flat) :
    flat.lines.map (fun l => (l.ref, l.index)) =
      [(some "Beit-El 1:1".toList, 0), (some "Beit-El 1:2".toList, 1)] := by
  have h := FlatLeaf.single (b := betEl) rfl (by decide) hflat
  rw [h.map_ref_lines, refs_betEl hflat]
  rfl

/-- Two small books: a range across chapters leads to its first line, and with a hyphen in the title
two ranges with different starts have the same answer. -/
theorem resolve_rangeRef_ruth :
    ∃ index, indexBooks [ruth, betEl] (bookTitles [ruth, betEl]) [(7, 100), (8, 103)] = .ok index ∧
      index.resolve "Ruth 1:2-3:2".toList (some 7) ⟨false, false⟩ = some ⟨7, 101, 1⟩ ∧
        index.resolve "Beit-El 1:1-2".toList (some 8) ⟨true, true⟩ =
          index.resolve "Beit-El 1:2-2".toList (some 8) ⟨true, true⟩ := by
  have hend (e : Text) (h : e.all (fun c => c = ':' ∨ isDigitSign c = true) = true) : IsRangeEnd e :=
    forall_mem_of_all h
  obtain ⟨index, hindex, hbooks⟩ :=
    resolve_rangeRef (show ([ruth, betEl].map (·.id)).Nodup by decide) (bookTitles [ruth, betEl])
      [(7, 100), (8, 103)]
  refine ⟨index, hindex, ?_, ?_⟩
  · obtain ⟨flat, hflat, hfound, -⟩ := hbooks ruth (by simp) _ rfl (by decide) (by decide)
    have hmem : (some "Ruth 1:2".toList, (1 : Int)) ∈ flat.lines.map fun l => (l.ref, l.index) := by
      simp [lines_ruth hflat]
    obtain ⟨line, hline, he⟩ := List.mem_map.1 hmem
    injection he with hlineRef hlineIndex
    obtain ⟨ref, href, hresolve⟩ := hfound (by decide) line hline
    obtain rfl : ref = "Ruth 1:2".toList := Option.some.inj (href.symm.trans hlineRef)
    refine (hresolve "3:2".toList (hend _ (by decide)) ⟨false, false⟩).trans ?_
    rw [SourceBook.targetOf, hlineIndex]
    rfl
  · obtain ⟨flat, hflat, -, hfound⟩ := hbooks betEl (by simp) _ rfl (by decide) (by decide)
    obtain ⟨answer, hanswer⟩ := hfound (by decide) ⟨true, true⟩
    -- the answer is that of each of the two lines
    have hsame (number : Int) (address : Text)
        (hmem : (some address, number) ∈ flat.lines.map fun l => (l.ref, l.index)) :
        index.resolve (rangeRef address "2".toList) (some 8) ⟨true, true⟩ = answer := by
      obtain ⟨line, hline, he⟩ := List.mem_map.1 hmem
      injection he with hlineRef
      obtain ⟨ref, href, hresolve⟩ := hanswer line hline
      obtain rfl : ref = address := Option.some.inj (href.symm.trans hlineRef)
      exact hresolve _ (hend _ (by decide))
    exact (hsame 0 "Beit-El 1:1".toList (by simp [lines_betEl hflat])).trans
      (hsame 1 "Beit-El 1:2".toList (by simp [lines_betEl hflat])).symm

/-- **A hyphen in the title hides the lines of a book from its ranges**: a range from the first line
on leads nowhere. -/
theorem resolve_range_betEl_eq_none :
    ∃ index flat, indexBooks [betEl] (bookTitles [betEl]) [(8, 100)] = .ok index ∧
      betEl.flat = .ok flat ∧
        (some "Beit-El 1:1".toList, (0 : Int)) ∈ flat.lines.map (fun l => (l.ref, l.index)) ∧
          IsRangeEnd "2".toList ∧
            ∀ leeway, index.resolve (rangeRef "Beit-El 1:1".toList "2".toList) (some 8) leeway = none := by
  obtain ⟨flat, hflat⟩ := betEl.flat_eq_ok
  refine ⟨_, flat, indexBooks_singleton hflat _ _, hflat, by simp [lines_betEl hflat],
    forall_mem_of_all (by decide), ?_⟩
  rintro ⟨chapter, tail⟩
  rw [refs_betEl hflat]
  cases chapter <;> cases tail <;> decide +kernel

end HebrewCorpus
