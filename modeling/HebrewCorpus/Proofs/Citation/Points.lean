import HebrewCorpus.Proofs.Citation.AddressKeys

/-! # Citations written with points

A citation may have points where a reference has a space and colons, as in `Ruth.3.2`. Its key is
read in several ways. As it stands, and with spaces for all points, it is no key of any line; the
next reading has a space for the first point and colons for the others, and is the reference itself.

* **`pointedRef`**: the citation of a place with points; `isFixedWord_labelsBehind` says that its
  points and labels are kept by canonical forms.
* **`squeeze_spaced`**, **`squeeze_firstPoint`**: the second and the third reading of its key.
* **`IndexedLeaf.lookup_eq_none_of_long`**: no key is longer than the reference with its address.
* **`IndexedLeaf.matchKey_pointed`**, **`resolve_pointedRef`**: a citation with points leads to the
  line of its place. -/

namespace HebrewCorpus

open AddressKind Text

/-! ### Labels behind signs -/

/-- Labels with a sign in front of each. -/
def labelsBehind (sign : Char) (labels : List Text) : Text := labels.flatMap (sign :: ·)

/-- **The citation of a place with points**: the title and the labels, each behind a point. -/
def pointedRef (title : Text) (kinds : List AddressKind) (place : List Nat) : Text :=
  title ++ labelsBehind '.' (englishLabels kinds place)

/-- Labels with a sign between them are the first one and the others behind the sign. -/
theorem joinWith_cons_labelsBehind (sign : Char) (label : Text) (labels : List Text) :
    joinWith [sign] (label :: labels) = label ++ labelsBehind sign labels := by
  induction labels generalizing label with
  | nil => rw [joinWith_singleton, labelsBehind, List.flatMap_nil, List.append_nil]
  | cons next labels ih =>
    rw [joinWith_cons [sign] label (List.cons_ne_nil _ _), ih, labelsBehind, labelsBehind,
      List.flatMap_cons, List.append_assoc]
    rfl

/-- **A label**: signs of English labels, with a digit in front. -/
structure IsLabel (label : Text) : Prop where
  signs : ∀ c ∈ label, c ∈ englishSigns
  digit : ∃ c rest, label = c :: rest ∧ c.isDigit = true

/-- The labels of a place are labels. -/
theorem isLabel_of_mem_englishLabels {kinds : List AddressKind} {place : List Nat} {label : Text}
    (h : label ∈ englishLabels kinds place) : IsLabel label := by
  obtain ⟨kind, i, rfl⟩ := exists_of_mem_englishLabels h
  exact ⟨fun _ hc => mem_english hc, exists_cons_english kind i⟩

/-- A digit of a label has no letter case, and numbers may start with it. -/
theorem caseless_of_isDigit {c : Char} (h : c.isDigit = true) :
    isCaseIgnorable c = false ∧ isCased c = false ∧ isDecimalDigit c = true := by
  have hall : ∀ c ∈ englishSigns, c.isDigit = true →
      isCaseIgnorable c = false ∧ isCased c = false ∧ isDecimalDigit c = true :=
    forall_mem_of_all (by decide)
  exact hall c (mem_englishSigns_of_isDigit h) h

namespace IsLabel

variable {label : Text}

/-- A label is a word. -/
theorem isWord (h : IsLabel label) : IsWord label := by
  obtain ⟨c, rest, rfl, -⟩ := h.digit
  exact ⟨List.cons_ne_nil c rest,
    fun c hc => (isFixed_of_mem_englishSigns (List.mem_cons_of_mem _ (h.signs c hc))).1⟩

/-- A label holds no point. -/
theorem point_not_mem (h : IsLabel label) : '.' ∉ label :=
  fun hp => absurd (h.signs '.' hp) (by decide)

/-- A label holds a digit. -/
theorem exists_digit (h : IsLabel label) : ∃ c ∈ label, c.isDigit = true := by
  obtain ⟨c, rest, rfl, hd⟩ := h.digit
  exact ⟨c, List.mem_cons_self, hd⟩

/-- A point in front of a label stands before a digit. -/
theorem startsWithDigit_append (h : IsLabel label) (t : Text) :
    startsWithDigit (label ++ t) = true := by
  obtain ⟨c, rest, rfl, hd⟩ := h.digit
  exact (caseless_of_isDigit hd).2.2

end IsLabel

/-- The first label stands behind its sign and in front of the others. -/
theorem labelsBehind_cons (sign : Char) (label : Text) (labels : List Text) :
    labelsBehind sign (label :: labels) = sign :: (label ++ labelsBehind sign labels) :=
  List.flatMap_cons

section Labels

variable {labels : List Text} (h : ∀ label ∈ labels, IsLabel label)

include h

/-- Labels with colons between them are an address. -/
theorem isAddress_joinWith (hne : labels ≠ []) : IsAddress (joinWith [':'] labels) := by
  refine ⟨fun c hc => ?_, ?_⟩
  · rcases mem_joinWith hc with hc | ⟨label, hl, hc⟩
    · rw [List.mem_singleton.1 hc]
      exact List.mem_cons_self
    · exact List.mem_cons_of_mem _ ((h label hl).signs c hc)
  · obtain ⟨label, labels, rfl⟩ := List.exists_cons_of_ne_nil hne
    obtain ⟨d, hd, hdigit⟩ := (h label List.mem_cons_self).exists_digit
    exact ⟨d, mem_joinWith_of_mem [':'] List.mem_cons_self hd, hdigit⟩

/-- Labels with spaces for their points. -/
theorem replaceChar_labelsBehind :
    replaceChar '.' [' '] (labelsBehind '.' labels) = labelsBehind ' ' labels := by
  induction labels with
  | nil => rfl
  | cons label labels ih =>
    obtain ⟨hlabel, hlabels⟩ := List.forall_mem_cons.1 h
    have hpoint : replaceChar '.' [' '] ('.' :: (label ++ labelsBehind '.' labels)) =
        ' ' :: replaceChar '.' [' '] (label ++ labelsBehind '.' labels) := rfl
    rw [labelsBehind_cons, hpoint, replaceChar_append, replaceChar_eq_self _ hlabel.point_not_mem,
      ih hlabels, labelsBehind_cons]

/-- Labels with colons for their points. -/
theorem replacePoints_labelsBehind :
    replacePoints ':' (labelsBehind '.' labels) = labelsBehind ':' labels := by
  induction labels with
  | nil => rfl
  | cons label labels ih =>
    obtain ⟨hlabel, hlabels⟩ := List.forall_mem_cons.1 h
    rw [labelsBehind_cons, replacePoints, if_pos ⟨rfl, hlabel.startsWithDigit_append _⟩,
      replacePoints_append ':' hlabel.point_not_mem, ih hlabels, labelsBehind_cons]

/-- Labels behind spaces are words of their text. -/
theorem words_append_labelsBehind (s : Text) :
    words (s ++ labelsBehind ' ' labels) = words s ++ labels := by
  induction labels generalizing s with
  | nil => rw [labelsBehind, List.flatMap_nil, List.append_nil, List.append_nil]
  | cons label labels ih =>
    obtain ⟨hlabel, hlabels⟩ := List.forall_mem_cons.1 h
    rw [labelsBehind_cons, words_append_blank isBlankChar_space, ih hlabels label,
      words_of_isWord hlabel.isWord, List.singleton_append]

/-- **Labels behind points are a fixed word**, which does not go on with a letter. -/
theorem isFixedWord_labelsBehind (hne : labels ≠ []) :
    IsFixedWord (labelsBehind '.' labels) ∧ startsCased (labelsBehind '.' labels) = false := by
  have hpoint : isBlankChar '.' = false ∧ isKept '.' = true ∧ lowerChar '.' = ['.'] := by decide
  refine ⟨⟨?_, ?_⟩, ?_⟩
  · obtain ⟨label, labels, rfl⟩ := List.exists_cons_of_ne_nil hne
    exact List.cons_ne_nil _ _
  · intro c hc
    obtain ⟨label, hl, hc⟩ := List.mem_flatMap.1 hc
    rcases List.mem_cons.1 hc with rfl | hc
    · exact hpoint
    · exact isFixed_of_mem_englishSigns (List.mem_cons_of_mem _ ((h label hl).signs c hc))
  · obtain ⟨label, labels, rfl⟩ := List.exists_cons_of_ne_nil hne
    obtain ⟨d, rest, rfl, hd⟩ := (h label List.mem_cons_self).digit
    obtain ⟨hignorable, hcased, -⟩ := caseless_of_isDigit hd
    have hpoint : isCaseIgnorable '.' = true := by decide
    simp [labelsBehind_cons, startsCased, hpoint, hignorable, hcased]

/-- The first point of labels behind points is replaced by a space, the others by colons. -/
theorem replaceFirstPoint_labelsBehind (hne : labels ≠ []) :
    replaceFirstPoint (labelsBehind '.' labels) = ' ' :: joinWith [':'] labels := by
  obtain ⟨label, labels, rfl⟩ := List.exists_cons_of_ne_nil hne
  obtain ⟨hlabel, hlabels⟩ := List.forall_mem_cons.1 h
  rw [labelsBehind_cons, replaceFirstPoint, if_pos ⟨rfl, hlabel.startsWithDigit_append _⟩,
    replacePoints_append ':' hlabel.point_not_mem, replacePoints_labelsBehind hlabels,
    joinWith_cons_labelsBehind]

end Labels

/-! ### The readings of a key with points -/

/-- Words behind those of a canonical title, with single spaces between them. -/
theorem squeeze_eq_of_words {title s : Text} {ws : List Text} (ht : canonical title ≠ [])
    (hne : ws ≠ []) (h : words s = canonicalWords title ++ ws) :
    squeeze s = canonical title ++ ' ' :: joinWith [' '] ws := by
  rw [squeeze, h, joinWith_append [' '] (mt canonical_eq_nil_iff.2 ht) hne, ← canonical_eq_joinWith,
    List.append_assoc, List.singleton_append]

section Readings

variable {title gap : Text} {labels : List Text} (ht : canonical title ≠ [])
  (hpoint : '.' ∉ canonical title) (hgap : gap = [] ∨ gap = [' '])
  (hlabels : ∀ label ∈ labels, IsLabel label) (hne : labels ≠ [])

include hgap in
/-- The words in front of the first point are those of the title. -/
theorem words_canonical_append_gap : words (canonical title ++ gap) = canonicalWords title := by
  have hblank : isBlank gap = true := by rcases hgap with rfl | rfl <;> decide
  rw [words_append_isBlank _ hblank, words_canonical]

include hpoint hgap in
/-- There is no point in front of the labels. -/
theorem point_not_mem_append_gap : '.' ∉ canonical title ++ gap := by
  have hfree : '.' ∉ gap := by rcases hgap with rfl | rfl <;> decide
  rw [List.mem_append, not_or]
  exact ⟨hpoint, hfree⟩

variable (labels) in
include ht hgap in
/-- **As it stands** a key ends in a word with its labels behind points. -/
theorem exists_endsIn_labelsBehind :
    ∃ front, ' ' ∉ front ∧
      EndsIn (front ++ labelsBehind '.' labels)
        (canonical title ++ (gap ++ labelsBehind '.' labels)) := by
  rcases hgap with rfl | rfl
  · -- the labels go on with the last word of the title
    have hwords := mt canonical_eq_nil_iff.2 ht
    have hlast : canonicalWords title =
        (canonicalWords title).dropLast ++ [(canonicalWords title).getLast hwords] :=
      (List.dropLast_concat_getLast hwords).symm
    refine ⟨_, (isWord_of_mem_canonicalWords (List.getLast_mem hwords)).space_not_mem, ?_⟩
    have hend := EndsIn.joinWith_concat (canonicalWords title).dropLast
      ((canonicalWords title).getLast hwords)
    rw [← hlast, ← canonical_eq_joinWith] at hend
    exact hend.append_right _
  · exact ⟨[], nofun, .append _ _⟩

include ht hpoint hgap hlabels hne

/-- **With spaces for all points** a key has the labels as words behind the title. -/
theorem squeeze_spaced :
    squeeze (replaceChar '.' [' '] (canonical title ++ (gap ++ labelsBehind '.' labels))) =
      canonical title ++ ' ' :: joinWith [' '] labels := by
  rw [← List.append_assoc, replaceChar_append,
    replaceChar_eq_self _ (point_not_mem_append_gap hpoint hgap), replaceChar_labelsBehind hlabels]
  apply squeeze_eq_of_words ht hne
  rw [words_append_labelsBehind hlabels, words_canonical_append_gap hgap]

/-- **With a space for the first point and colons for the others** a key is the title and the
address. -/
theorem squeeze_firstPoint :
    squeeze (replaceFirstPoint (canonical title ++ (gap ++ labelsBehind '.' labels))) =
      canonical title ++ ' ' :: joinWith [':'] labels := by
  rw [← List.append_assoc, replaceFirstPoint_append (point_not_mem_append_gap hpoint hgap),
    replaceFirstPoint_labelsBehind hlabels hne]
  have hwords : words (canonical title ++ gap ++ ' ' :: joinWith [':'] labels) =
      canonicalWords title ++ [joinWith [':'] labels] := by
    rw [words_append_blank isBlankChar_space, words_canonical_append_gap hgap,
      words_of_isWord (isAddress_joinWith hlabels hne).isWord]
  rw [squeeze_eq_of_words ht (by simp) hwords, joinWith_singleton]

end Readings

/-! ### Lookups -/

/-- **No key is longer than the reference with its address**: a key that ends in a word with a digit
and is longer than the title and the word leads nowhere. -/
theorem IndexedLeaf.lookup_eq_none_of_long {b : SourceBook} {layout : LeafLayout} {flat : FlatBook}
    {entries : List RefEntry} (h : IndexedLeaf b layout flat entries)
    (titles : List (Int × List Text)) (offsets : List (Int × Int)) {w key : Text}
    (hend : EndsIn w key) (hspace : ' ' ∉ w) (hdigit : ∃ c ∈ w, c.isDigit = true)
    (hlong : (canonical b.titleEn ++ ' ' :: w).length < key.length) :
    (RefIndex.build entries titles offsets).lookup key (some b.id) = none := by
  cases hlookup : (RefIndex.build entries titles offsets).lookup key (some b.id) with
  | none => rfl
  | some t =>
    -- the key would be the end of a reference that is shorter
    have hleaf := h.flatLeaf
    obtain ⟨place, i, hp, rfl, hsuffix, -⟩ :=
      hleaf.exists_place_of_lookup hlookup hend hspace hdigit
    have hlabels := englishLabels_ne_nil hleaf.kinds_ne_nil
      (hleaf.length_place place (List.fst_mem_of_mem_zipIdx hp))
    have hle := hsuffix.length_le
    rw [canonical_placeRef h.titled hlabels] at hle
    exact absurd hle (Nat.not_le_of_lt hlong)

namespace IndexedLeaf

variable {b : SourceBook} {layout : LeafLayout} {flat : FlatBook} {entries : List RefEntry}
  (h : IndexedLeaf b layout flat entries) (titles : List (Int × List Text))
  (offsets : List (Int × Int)) {gap : Text} {labels : List Text} (hgap : gap = [] ∨ gap = [' '])
  (hlabels : ∀ label ∈ labels, IsLabel label)

include h hlabels

include hgap in
/-- **As it stands** a key with points leads nowhere, however far it is continued. -/
theorem lookup_pointed_eq_none (hne : labels ≠ []) (j : Nat) :
    (RefIndex.build entries titles offsets).lookup
      (canonical b.titleEn ++ (gap ++ labelsBehind '.' labels) ++ RefIndex.firsts j) (some b.id) =
        none := by
  obtain ⟨front, hfront, hend⟩ := exists_endsIn_labelsBehind labels h.titled hgap
  obtain ⟨label, rest, rfl⟩ := List.exists_cons_of_ne_nil hne
  obtain ⟨d, hd, hdigit⟩ := (hlabels label List.mem_cons_self).exists_digit
  refine h.flatLeaf.lookup_eq_none titles offsets (hend.append_right (RefIndex.firsts j)) ?_
    ⟨'.', by simp [labelsBehind_cons], by decide⟩ ⟨d, by simp [labelsBehind_cons, hd], hdigit⟩
  have hspace := (isFixedWord_labelsBehind hlabels hne).1.isWord.space_not_mem
  simp only [List.mem_append, not_or]
  exact ⟨⟨hfront, hspace⟩, space_not_mem_firsts j⟩

/-- **With spaces for all points** a key with two labels or more leads nowhere, however far it is
continued. -/
theorem lookup_spaced_eq_none {front : List Text} {last : Text} (hfront : front ≠ [])
    (hsplit : labels = front ++ [last]) (j : Nat) :
    (RefIndex.build entries titles offsets).lookup
      (canonical b.titleEn ++ ' ' :: joinWith [' '] labels ++ RefIndex.firsts j) (some b.id) =
        none := by
  have hlast : IsLabel last := hlabels last (by simp [hsplit])
  obtain ⟨d, hd, hdigit⟩ := hlast.exists_digit
  have hkey : canonical b.titleEn ++ ' ' :: joinWith [' '] labels ++ RefIndex.firsts j =
      canonical b.titleEn ++ ' ' :: joinWith [' '] front ++ ' ' :: (last ++ RefIndex.firsts j) := by
    rw [hsplit, joinWith_append [' '] hfront (by simp), joinWith_singleton]
    simp
  rw [hkey]
  refine h.lookup_eq_none_of_long titles offsets (.append _ _) ?_
    ⟨d, List.mem_append_left _ hd, hdigit⟩ ?_
  · rw [List.mem_append, not_or]
    exact ⟨hlast.isWord.space_not_mem, space_not_mem_firsts j⟩
  · simp only [List.length_append, List.length_cons]
    omega

include hgap in
/-- **A key with points leads to the line at its address**: by its third reading, or by its second
one when there is a single label. -/
theorem matchKey_pointed (hpoint : '.' ∉ canonical b.titleEn) (hne : labels ≠ []) {ref : Text}
    (hkey : canonical ref = canonical b.titleEn ++ (gap ++ labelsBehind '.' labels))
    {t : LineTarget} (hlookup : (RefIndex.build entries titles offsets).lookup
      (canonical b.titleEn ++ ' ' :: joinWith [':'] labels) (some b.id) = some t) (depth : Int) :
    (RefIndex.build entries titles offsets).matchKey (canonical ref) (some b.id) depth =
      some t := by
  have hmem : '.' ∈ canonical ref := by
    obtain ⟨label, rest, rfl⟩ := List.exists_cons_of_ne_nil hne
    simp [hkey, labelsBehind_cons]
  -- the first three readings, of which none is empty
  rw [RefIndex.matchKey, findSome?_dottedVariants _ hmem]
  simp only [List.map_cons, squeeze_canonical]
  rw [hkey, squeeze_spaced h.titled hpoint hgap hlabels hne,
    squeeze_firstPoint h.titled hpoint hgap hlabels hne,
    List.filter_cons_of_pos (by simp [h.titled]), List.filter_cons_of_pos (by simp),
    List.filter_cons_of_pos (by simp)]
  rw [List.findSome?_cons, RefIndex.findSome?_continuations_eq_none
    (h.lookup_pointed_eq_none titles offsets hgap hlabels hne), List.findSome?_cons]
  obtain ⟨front, last, hsplit⟩ : ∃ front last, labels = front ++ [last] :=
    ⟨_, _, (List.dropLast_concat_getLast hne).symm⟩
  by_cases hfront : front = []
  · -- a single label stands behind a space in both readings
    have hsingle : joinWith [' '] labels = joinWith [':'] labels := by
      rw [hsplit, hfront, List.nil_append, joinWith_singleton, joinWith_singleton]
    rw [hsingle, RefIndex.findSome?_continuations_of_some hlookup]
  · rw [RefIndex.findSome?_continuations_eq_none
      (h.lookup_spaced_eq_none titles offsets hlabels hfront hsplit)]
    dsimp only
    rw [List.findSome?_cons, RefIndex.findSome?_continuations_of_some hlookup]

omit hlabels in
/-- The labels of a place behind points lead to the line at its address. -/
theorem resolve_pointed {place : List Nat} (hp : place ∈ leafPlaces layout.depth b.content)
    (hpoint : '.' ∉ canonical b.titleEn) {t : LineTarget}
    (htarget : b.targetAt? flat offsets (addressWord layout.addressKinds place) = some t)
    (leeway : RefIndex.Leeway) :
    (RefIndex.build entries titles offsets).resolve
      (pointedRef b.titleEn layout.addressKinds place) (some b.id) leeway = some t := by
  have hne : englishLabels layout.addressKinds place ≠ [] :=
    englishLabels_ne_nil h.flatLeaf.kinds_ne_nil (h.flatLeaf.length_place place hp)
  have hlabels : ∀ label ∈ englishLabels layout.addressKinds place, IsLabel label :=
    fun _ hl => isLabel_of_mem_englishLabels hl
  obtain ⟨hword, hstart⟩ := isFixedWord_labelsBehind hlabels hne
  obtain ⟨gap, hgap, hkey⟩ := canonical_append_word h.titled hword hstart
  rw [← pointedRef] at hkey
  have hlookup := (h.lookup_eq titles offsets (.addressWord hne)).trans htarget
  refine RefIndex.resolve_of_matchKey (by simp [hkey, h.titled]) ?_ leeway
  exact h.matchKey_pointed titles offsets hgap hlabels hpoint hne hkey hlookup _

end IndexedLeaf

/-- **Citations with points lead to their lines.** For every line of a book that is one leaf and
whose English title has a canonical form without points, the title and the labels of the line, each
behind a point, lead to the line, whatever the leeway. -/
theorem resolve_pointedRef {books : List SourceBook} (distinct : (books.map (·.id)).Nodup)
    (titles : List (Int × List Text)) (offsets : List (Int × Int)) :
    ∃ index, indexBooks books titles offsets = .ok index ∧
      ∀ b ∈ books, ∀ layout, b.layout? = some layout → 1 ≤ layout.depth →
        canonical b.titleEn ≠ [] → '.' ∉ canonical b.titleEn →
          ∃ flat, b.flat = .ok flat ∧ ∀ line ∈ flat.lines,
            ∃ place ∈ leafPlaces layout.depth b.content,
              line.ref = some (placeRef b.titleEn layout.addressKinds place) ∧
                ∀ leeway, index.resolve (pointedRef b.titleEn layout.addressKinds place)
                  (some b.id) leeway = some (b.targetOf offsets line) := by
  obtain ⟨entries, hindex, hleaf⟩ := exists_indexedLeaf distinct titles offsets
  refine ⟨_, hindex, ?_⟩
  intro b hb layout hl hd ht hpoint
  obtain ⟨flat, h⟩ := hleaf b hb layout hl hd ht
  refine ⟨flat, h.flattened, fun line hline => ?_⟩
  obtain ⟨place, hp, href, htarget⟩ := h.exists_place_of_mem_lines offsets hline
  exact ⟨place, hp, href, h.resolve_pointed titles offsets hp hpoint htarget⟩

/-- The small book by itself: its last line is cited with points. -/
theorem resolve_pointedRef_ruth :
    ∃ index, indexBooks [ruth] (bookTitles [ruth]) [(7, 100)] = .ok index ∧
      ∀ leeway, index.resolve "Ruth.3.2".toList (some 7) leeway = some ⟨7, 102, 2⟩ := by
  obtain ⟨index, hindex, hbooks⟩ :=
    resolve_pointedRef (show ([ruth].map (·.id)).Nodup by decide) (bookTitles [ruth]) [(7, 100)]
  obtain ⟨flat, hflat, hlines⟩ := hbooks ruth List.mem_cons_self _ rfl (by decide) (by decide)
    (by decide)
  obtain ⟨line, hline, hlineRef, hlineIndex⟩ :=
    exists_line_ruth hflat (show (some "Ruth 3:2".toList, (2 : Int)) ∈ _ by simp)
  obtain ⟨place, hp, href, hresolve⟩ := hlines line hline
  have hplaces : ∀ p ∈ leafPlaces 2 ruth.content,
      placeRef ruth.titleEn [.chapter, .verse] p = "Ruth 3:2".toList → p = [2, 1] := by decide
  obtain rfl : place = [2, 1] :=
    hplaces place hp (Option.some.inj (href.symm.trans hlineRef))
  refine ⟨index, hindex, fun leeway => (hresolve leeway).trans ?_⟩
  rw [SourceBook.targetOf, hlineIndex]
  rfl

end HebrewCorpus
