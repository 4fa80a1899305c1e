import HebrewCorpus.Proofs.Citation.Tiers

/-! # What a citation of a leaf means

A citation that names a book of one leaf by its English title, and positions for all its levels,
leads to the line at the positions. Where there is none it leads to the first line of the chapter,
else to the last line before it in its unit, else nowhere.

* **`FlatBook.citedLine?`**: the line that positions mean.
* **`resolve_positionRef`**: resolution finds that line. -/

namespace HebrewCorpus

open AddressKind Text

/-! ### The line that positions mean -/

/-- **The reference of positions**, which count from 1 on every level. -/
def positionRef (title : Text) (kinds : List AddressKind) (positions : List Nat) : Text :=
  placeRef title kinds (positions.map (· - 1))

/-- **The reference of the first line of a chapter**: the label of the first position, and `:1` for
every level below the first. -/
def chapterRef (title : Text) (kinds : List AddressKind) (positions : List Nat) : Text :=
  title ++ ' ' :: (addressWord (kinds.take 1) ((positions.take 1).map (· - 1)) ++
    RefIndex.firsts (kinds.length - 1))

namespace FlatBook

/-- **The last line before positions in their unit**: the last position is counted down. -/
def lineBefore? (flat : FlatBook) (title : Text) (kinds : List AddressKind)
    (positions : List Nat) : Option Line :=
  (List.range' 1 (positions.getLastD 1 - 1)).reverse.findSome? fun m =>
    flat.lineAt? (positionRef title kinds (positions.dropLast ++ [m]))

/-- **The line that positions mean**: the line at them, else the first line of the chapter, else the
last line before them in their unit. -/
def citedLine? (flat : FlatBook) (title : Text) (kinds : List AddressKind)
    (positions : List Nat) : Option Line :=
  (flat.lineAt? (positionRef title kinds positions)).or
    ((flat.lineAt? (chapterRef title kinds positions)).or (flat.lineBefore? title kinds positions))

end FlatBook

/-! ### Resolution -/

/-- A chain of tiers in which only the first, the fifth and the last have results of their own. -/
theorem findSome?_chain {f : Tier → Option LineTarget}
    (halias : ∀ t, f .aliasStripped = some t → f .exact = some t)
    (htail : ∀ t, f .numericTail = some t → f .exact = some t) (hrange : f .rangeStart = none) :
    Tier.chain.findSome? f = (f .exact).or ((f .chapterStart).or (f .withinChapter)) := by
  simp only [Tier.chain, List.findSome?_cons, List.findSome?_nil, hrange]
  cases hexact : f .exact with
  | some t => rfl
  | none =>
    have none_of {r : Option LineTarget} (h : ∀ t, r = some t → f .exact = some t) : r = none := by
      cases hr : r with
      | none => rfl
      | some t =>
        have := h t hr
        rw [hexact] at this
        cases this
    rw [none_of halias, none_of htail]
    cases f .chapterStart with
    | some t => rfl
    | none => cases f .withinChapter <;> rfl

/-! ### The two cuts of an address -/

section Cuts

variable {kinds : List AddressKind} {positions : List Nat}
  (hlen : positions.length = kinds.length) (hkinds : 2 ≤ kinds.length)

include hlen hkinds

/-- **Positions are cut behind the first one**, at the chapter. -/
theorem exists_chapter (title : Text) :
    ∃ chapter rest, IsAddress chapter ∧ ':' ∉ chapter ∧
      addressWord kinds (positions.map (· - 1)) = chapter ++ ':' :: rest ∧
        chapterRef title kinds positions =
          title ++ ' ' :: (chapter ++ RefIndex.firsts (kinds.length - 1)) := by
  -- the label of the first position, and below it at least one more
  match kinds, positions, hlen, hkinds with
  | kind :: kinds, p :: positions, hlen, hkinds =>
    have hplace : (positions.map (· - 1)).length = kinds.length := by simpa using hlen
    have hkne : kinds ≠ [] := by
      rintro rfl
      simp at hkinds
    have hrest := englishLabels_ne_nil hkne hplace
    have hone : addressWord [kind] [p - 1] = (kind.labelsAt (p - 1)).english :=
      joinWith_singleton [':'] _
    have haddress : IsAddress (addressWord [kind] [p - 1]) := .addressWord (by simp [englishLabels])
    rw [hone] at haddress
    refine ⟨_, _, haddress, ?_, addressWord_cons kind (p - 1) hrest, ?_⟩
    · intro hc
      exact absurd (mem_english hc) (by decide)
    · show title ++ ' ' :: (addressWord [kind] [p - 1] ++ _) = _
      rw [hone]

/-- **Positions are cut in front of the last one**, which is a plain number, at the unit. -/
theorem exists_unit (hlast : kinds.getLast? ≠ some .talmudPage) (hpos : ∀ p ∈ positions, 1 ≤ p) :
    ∃ unit, IsAddress unit ∧ unit.count ':' + 2 = kinds.length ∧
      positions.getLastD 1 ∈ positions ∧
        addressWord kinds (positions.map (· - 1)) = unit ++ ':' :: decimalNat (positions.getLastD 1) ∧
          ∀ m, 1 ≤ m → addressWord kinds ((positions.dropLast ++ [m]).map (· - 1)) =
            unit ++ ':' :: decimalNat m := by
  have hne : positions ≠ [] := by
    rintro rfl
    simp only [List.length_nil] at hlen
    omega
  have hkne : kinds ≠ [] := by
    rintro rfl
    simp at hkinds
  obtain ⟨front, p, rfl⟩ : ∃ front p, positions = front ++ [p] :=
    ⟨_, _, (List.dropLast_concat_getLast hne).symm⟩
  obtain ⟨above, kind, rfl⟩ : ∃ above kind, kinds = above ++ [kind] :=
    ⟨_, _, (List.dropLast_concat_getLast hkne).symm⟩
  have hkind : kind ≠ .talmudPage := by
    rintro rfl
    simp at hlast
  simp only [List.length_append, List.length_cons, List.length_nil] at hlen hkinds
  have hplace : (front.map (· - 1)).length = above.length := by
    rw [List.length_map]
    omega
  have habove : above ≠ [] := by
    rintro rfl
    simp at hkinds
  have hlabels := englishLabels_ne_nil habove hplace
  -- only the last label changes with the last position, and it is a plain number
  have hword (m : Nat) (hm : 1 ≤ m) : addressWord (above ++ [kind]) ((front ++ [m]).map (· - 1)) =
      addressWord above (front.map (· - 1)) ++ ':' :: decimalNat m := by
    rw [List.map_append, List.map_singleton, addressWord_concat kind (m - 1) hplace hlabels,
      english_of_ne_talmudPage hkind, Nat.sub_add_cancel hm]
  have hgetLast : (front ++ [p]).getLastD 1 = p := by simp
  refine ⟨addressWord above (front.map (· - 1)), .addressWord hlabels, ?_, ?_, ?_, ?_⟩
  · have hcount := count_addressWord hplace habove
    rw [List.length_append, List.length_singleton]
    omega
  · rw [hgetLast]
    simp
  · rw [hgetLast]
    exact hword p (hpos p (by simp))
  · intro m hm
    rw [List.dropLast_concat]
    exact hword m hm

end Cuts

/-- A count down to 1 may leave out its first number when that was tried before. -/
theorem or_findSome?_countdown {α : Type} {f : Nat → Option α} {first second : Option α} {p : Nat}
    (hp : 1 ≤ p) (hfirst : f p = first) :
    first.or (second.or ((List.range' 1 p).reverse.findSome? f)) =
      first.or (second.or ((List.range' 1 (p - 1)).reverse.findSome? f)) := by
  cases first with
  | some a => rfl
  | none =>
    obtain ⟨p, rfl⟩ : ∃ q, p = q + 1 := ⟨p - 1, (Nat.sub_add_cancel hp).symm⟩
    rw [findSome?_countdown_succ, hfirst]
    rfl

/-- **The line that positions mean**, by the words of their addresses. -/
theorem SourceBook.map_citedLine? (b : SourceBook) (flat : FlatBook) (offsets : List (Int × Int))
    {kinds : List AddressKind} {positions : List Nat} {chapter unit : Text}
    (hstart : chapterRef b.titleEn kinds positions =
      b.titleEn ++ ' ' :: (chapter ++ RefIndex.firsts (kinds.length - 1)))
    (hwords : ∀ m, 1 ≤ m → addressWord kinds ((positions.dropLast ++ [m]).map (· - 1)) =
      unit ++ ':' :: decimalNat m) :
    (flat.citedLine? b.titleEn kinds positions).map (b.targetOf offsets) =
      (b.targetAt? flat offsets (addressWord kinds (positions.map (· - 1)))).or
        ((b.targetAt? flat offsets (chapter ++ RefIndex.firsts (kinds.length - 1))).or
          ((List.range' 1 (positions.getLastD 1 - 1)).reverse.findSome? fun m =>
            b.targetAt? flat offsets (unit ++ ':' :: decimalNat m))) := by
  have hbefore : (flat.lineBefore? b.titleEn kinds positions).map (b.targetOf offsets) =
      (List.range' 1 (positions.getLastD 1 - 1)).reverse.findSome? fun m =>
        b.targetAt? flat offsets (unit ++ ':' :: decimalNat m) := by
    rw [FlatBook.lineBefore?, List.map_findSome?]
    refine findSome?_congr fun m hm => ?_
    have hm : 1 ≤ m := (List.mem_range'_1.1 (List.mem_reverse.1 hm)).1
    show (flat.lineAt? (positionRef _ _ _)).map _ = b.targetAt? flat offsets _
    rw [positionRef, placeRef, hwords m hm]
    rfl
  rw [FlatBook.citedLine?, Option.map_or, Option.map_or, hstart, hbefore]
  rfl

namespace IndexedLeaf

variable {b : SourceBook} {layout : LeafLayout} {flat : FlatBook} {entries : List RefEntry}
  (h : IndexedLeaf b layout flat entries) (titles : List (Int × List Text))
  (offsets : List (Int × Int)) (hdepth : 2 ≤ layout.depth) (hcolon : ':' ∉ canonical b.titleEn)
  (hhyphen : '-' ∉ canonical b.titleEn)

include h hdepth hcolon hhyphen

/-- **An address of a leaf under an index** leads to its own line, else to that of its chapter, else
to the first one in the count down from its last number. -/
theorem resolve_address {w chapter rest unit : Text} {p : Nat} (hw : IsAddress w)
    (hwcount : w.count ':' + 1 = layout.depth) (hchapter : IsAddress chapter)
    (hone : ':' ∉ chapter) (hcut : w = chapter ++ ':' :: rest) (hunit : IsAddress unit)
    (hcount : unit.count ':' + 2 = layout.depth) (hdigits : (decimalNat p).length ≤ maxDigits)
    (hcut' : w = unit ++ ':' :: decimalNat p) :
    (RefIndex.build entries titles offsets).resolve (b.titleEn ++ ' ' :: w) (some b.id) ⟨true, true⟩ =
      (b.targetAt? flat offsets w).or
        ((b.targetAt? flat offsets (chapter ++ RefIndex.firsts (layout.depth - 1))).or
          ((List.range' 1 p).reverse.findSome? fun k =>
            b.targetAt? flat offsets (unit ++ ':' :: decimalNat k))) := by
  let index := RefIndex.build entries titles offsets
  let q : KeyQuery := ⟨canonical b.titleEn ++ ' ' :: w, index.titlesOf b.id, true⟩
  have hnohyphen : '-' ∉ canonical b.titleEn ++ ' ' :: w := by
    simp only [List.mem_append, List.mem_cons, not_or]
    exact ⟨hhyphen, by decide, hw.hyphen_not_mem⟩
  have hkey : canonical (b.titleEn ++ ' ' :: w) = canonical b.titleEn ++ ' ' :: w :=
    hw.canonical_append h.titled
  have hexact : index.matchTier q (some b.id) .exact = b.targetAt? flat offsets w :=
    h.matchTier_exact titles offsets _ hw hwcount
  -- the second tier, the third and the fourth add nothing to the first
  have hchain : index.resolve (b.titleEn ++ ' ' :: w) (some b.id) ⟨true, true⟩ =
      (index.matchTier q (some b.id) .exact).or
        ((index.matchTier q (some b.id) .chapterStart).or
          (index.matchTier q (some b.id) .withinChapter)) := by
    rw [RefIndex.resolve_eq_findSome?_chain index b.id true (by rw [hkey]; simp), hkey]
    refine findSome?_chain ?_ ?_ ?_
    · intro t ht
      rw [hexact]
      exact h.matchTier_aliasStripped titles offsets _ hw hwcount ht
    · intro t ht
      rw [hexact]
      exact h.matchTier_numericTail titles offsets _ hw hwcount ht
    · exact matchTier_rangeStart hnohyphen
  have hstartTier : index.matchTier q (some b.id) .chapterStart =
      b.targetAt? flat offsets (chapter ++ RefIndex.firsts (layout.depth - 1)) := by
    have htier := h.matchTier_chapterStart titles offsets (index.titlesOf b.id) rest hchapter hone
      hdepth hcolon (hcut ▸ hnohyphen)
    rwa [← hcut] at htier
  have hwithin : index.matchTier q (some b.id) .withinChapter =
      (List.range' 1 p).reverse.findSome? fun k =>
        b.targetAt? flat offsets (unit ++ ':' :: decimalNat k) := by
    have htier := h.matchTier_withinChapter titles offsets (index.titlesOf b.id) hunit hcount
      hdigits (hcut' ▸ hnohyphen)
    rwa [← hcut'] at htier
  rw [hchain, hexact, hstartTier, hwithin]

/-- **Positions of a leaf under an index** lead to the line that they mean. -/
theorem resolve_positions (hlast : layout.addressKinds.getLast? ≠ some .talmudPage)
    {positions : List Nat} (hlen : positions.length = layout.depth)
    (hpos : ∀ p ∈ positions, 1 ≤ p ∧ (decimalNat p).length ≤ maxDigits) :
    (RefIndex.build entries titles offsets).resolve
        (positionRef b.titleEn layout.addressKinds positions) (some b.id) ⟨true, true⟩ =
      (flat.citedLine? b.titleEn layout.addressKinds positions).map (b.targetOf offsets) := by
  have hkinds := h.flatLeaf.length_kinds
  have hplace : (positions.map (· - 1)).length = layout.addressKinds.length := by
    rw [List.length_map, hlen, hkinds]
  have hlabels := englishLabels_ne_nil h.flatLeaf.kinds_ne_nil hplace
  have hwcount := count_addressWord hplace h.flatLeaf.kinds_ne_nil
  obtain ⟨chapter, rest, hchapter, hone, hcut, hstart⟩ :=
    exists_chapter (hlen.trans hkinds.symm) (hkinds.symm ▸ hdepth) b.titleEn
  obtain ⟨unit, hunit, hcount, hmem, hcut', hwords⟩ :=
    exists_unit (hlen.trans hkinds.symm) (hkinds.symm ▸ hdepth) hlast fun p hp => (hpos p hp).1
  rw [hkinds] at hwcount hcount
  have hresolve := h.resolve_address titles offsets hdepth hcolon hhyphen (.addressWord hlabels)
    hwcount hchapter hone hcut hunit hcount (hpos _ hmem).2 hcut'
  have hcited := b.map_citedLine? flat offsets hstart hwords
  rw [hkinds] at hcited
  -- the last position itself was looked up by the first tier
  have hself : b.targetAt? flat offsets (unit ++ ':' :: decimalNat (positions.getLastD 1)) =
      b.targetAt? flat offsets (addressWord layout.addressKinds (positions.map (· - 1))) := by
    rw [hcut']
  rw [or_findSome?_countdown (hpos _ hmem).1 hself] at hresolve
  exact hresolve.trans hcited.symm

end IndexedLeaf

/-- **A citation by title and positions leads to the line that the positions mean.** The book is one
leaf of at least two levels, the last of which is not addressed by page sides, and neither a colon
nor a hyphen is in the canonical form of its English title; the index may name the books by any
titles. -/
theorem resolve_positionRef {books : List SourceBook} (distinct : (books.map (·.id)).Nodup)
    (titles : List (Int × List Text)) (offsets : List (Int × Int)) :
    ∃ index, indexBooks books titles offsets = .ok index ∧
      ∀ b ∈ books, ∀ layout, b.layout? = some layout → 2 ≤ layout.depth →
        layout.addressKinds.getLast? ≠ some .talmudPage → canonical b.titleEn ≠ [] →
          ':' ∉ canonical b.titleEn → '-' ∉ canonical b.titleEn →
            ∃ flat, b.flat = .ok flat ∧
              ∀ positions : List Nat, positions.length = layout.depth →
                (∀ p ∈ positions, 1 ≤ p ∧ (decimalNat p).length ≤ maxDigits) →
                  index.resolve (positionRef b.titleEn layout.addressKinds positions) (some b.id)
                      ⟨true, true⟩ =
                    (flat.citedLine? b.titleEn layout.addressKinds positions).map
                      (b.targetOf offsets) := by
  obtain ⟨entries, hindex, hentries⟩ := indexBooks_eq_ok distinct titles offsets
  refine ⟨_, hindex, ?_⟩
  intro b hb layout hl hd hlast ht hcolon hhyphen
  obtain ⟨flat, hflat, hown⟩ := hentries b hb
  refine ⟨flat, hflat, ?_⟩
  intro positions hlen hpositions
  have h : IndexedLeaf b layout flat entries := ⟨hl, by omega, ht, hflat, hown⟩
  exact h.resolve_positions titles offsets hd hcolon hhyphen hlast hlen hpositions

/-- The small book by itself: verse 9 of the third chapter, which starts with a blank verse, means the
verse 2 that is there. -/
theorem resolve_positionRef_ruth :
    ∃ index, indexBooks [ruth] (bookTitles [ruth]) [(7, 100)] = .ok index ∧
      index.resolve "Ruth 3:9".toList (some 7) ⟨true, true⟩ = some ⟨7, 102, 2⟩ := by
  obtain ⟨index, hindex, hbooks⟩ :=
    resolve_positionRef (show ([ruth].map (·.id)).Nodup by decide) (bookTitles [ruth]) [(7, 100)]
  obtain ⟨flat, hflat, hpositions⟩ := hbooks ruth List.mem_cons_self _ rfl (by decide) (by decide)
    (by decide) (by decide) (by decide)
  have hresolve := hpositions [3, 9] rfl (by decide)
  refine ⟨index, hindex, hresolve.trans ?_⟩
  have hcited : (flat.citedLine? ruth.titleEn [.chapter, .verse] [3, 9]).map
      (ruth.targetOf [(7, 100)]) =
        (ruth.targetAt? flat [(7, 100)] "3:9".toList).or
          ((ruth.targetAt? flat [(7, 100)] "3:1".toList).or
            ((List.range' 1 8).reverse.findSome? fun m =>
              ruth.targetAt? flat [(7, 100)] (addressWord [.chapter, .verse] [2, m - 1]))) := by
    rw [FlatBook.citedLine?, Option.map_or, Option.map_or, FlatBook.lineBefore?,
      List.map_findSome?]
    rfl
  have hat := ruth.targetAt?_eq flat [(7, 100)]
  rw [lines_ruth hflat] at hat
  simp only [hat] at hcited
  exact hcited.trans (by decide)

end HebrewCorpus
