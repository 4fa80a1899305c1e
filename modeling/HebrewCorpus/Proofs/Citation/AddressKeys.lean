import HebrewCorpus.Proofs.Citation.Depth
import HebrewCorpus.Proofs.Citation.OwnReference

/-! # Keys that end in an address

Within a book that is one leaf, a key that ends in an address can only lead to the line with that
address, or with that address and as many `:1` after it as the levels of the book ask for. The key
that has the whole canonical title in front of the address does lead there.

* **`FlatBook.lineAt?`**, **`SourceBook.targetAt?`**: the line with a reference, and its target.
* **`IsAddress`**: the words that are looked up as addresses.
* **`FlatLeaf.lookup_eq_none`**: words with other signs lead nowhere.
* **`IndexedLeaf.matchKey_eq`**, **`IndexedLeaf.targetAt?_of_matchKey`**: what such keys lead to. -/

namespace HebrewCorpus

open AddressKind Text

/-- **The line with a reference**, the first one if there are several. -/
def FlatBook.lineAt? (flat : FlatBook) (ref : Text) : Option Line :=
  flat.lines.find? (·.ref = some ref)

/-- A line that is found by a reference is a line with that reference. -/
theorem FlatBook.mem_of_lineAt? {flat : FlatBook} {ref : Text} {line : Line}
    (h : flat.lineAt? ref = some line) : line ∈ flat.lines ∧ line.ref = some ref :=
  ⟨List.mem_of_find?_eq_some h,
    of_decide_eq_true (List.find?_some (p := fun l : Line => decide (l.ref = some ref)) h)⟩

/-- **The target of the line at an address**, behind the book's English title. -/
def SourceBook.targetAt? (b : SourceBook) (flat : FlatBook) (offsets : List (Int × Int))
    (address : Text) : Option LineTarget :=
  (flat.lineAt? (b.titleEn ++ ' ' :: address)).map (b.targetOf offsets)

/-- The target of the line at an address depends on the references and the numbers of the lines. -/
theorem SourceBook.targetAt?_eq (b : SourceBook) (flat : FlatBook) (offsets : List (Int × Int))
    (address : Text) :
    b.targetAt? flat offsets address =
      ((flat.lines.map fun l => (l.ref, l.index)).find?
        fun p => p.1 = some (b.titleEn ++ ' ' :: address)).map fun p =>
          ⟨b.id, (offsets.lookup b.id).getD 0 + p.2, p.2⟩ := by
  rw [List.find?_map, Option.map_map]
  rfl

/-! ### Addresses -/

/-- **A word that is looked up as an address**: digits, sides and colons, with at least one digit. -/
def IsAddress (w : Text) : Prop :=
  (∀ c ∈ w, c ∈ ':' :: englishSigns) ∧ ∃ c ∈ w, c.isDigit = true

namespace IsAddress

/-- The address of a place is one. -/
theorem addressWord {kinds : List AddressKind} {place : List Nat}
    (h : englishLabels kinds place ≠ []) : IsAddress (addressWord kinds place) :=
  ⟨fun _ hc => mem_addressWord hc, exists_digit_mem_addressWord h⟩

/-- An address is a fixed word. -/
theorem isFixedWord {w : Text} (h : IsAddress w) : IsFixedWord w := by
  obtain ⟨c, hc, -⟩ := h.2
  exact ⟨List.ne_nil_of_mem hc, fun c hc => isFixed_of_mem_englishSigns (h.1 c hc)⟩

/-- An address is a word. -/
theorem isWord {w : Text} (h : IsAddress w) : IsWord w := h.isFixedWord.isWord

/-- An address holds no point. -/
theorem point_not_mem {w : Text} (h : IsAddress w) : '.' ∉ w :=
  fun hp => absurd (h.1 '.' hp) (by decide)

/-- An address holds no hyphen. -/
theorem hyphen_not_mem {w : Text} (h : IsAddress w) : '-' ∉ w :=
  fun hp => absurd (h.1 '-' hp) (by decide)

/-- An address goes on with more of its signs. -/
theorem append {w back : Text} (h : IsAddress w) (hback : ∀ c ∈ back, c ∈ ':' :: englishSigns) :
    IsAddress (w ++ back) := by
  obtain ⟨c, hc, hd⟩ := h.2
  refine ⟨?_, c, List.mem_append_left _ hc, hd⟩
  intro c hc
  rcases List.mem_append.1 hc with hc | hc
  · exact h.1 c hc
  · exact hback c hc

/-- An address goes on with `:1`. -/
theorem append_firsts {w : Text} (h : IsAddress w) (times : Nat) :
    IsAddress (w ++ RefIndex.firsts times) := by
  refine h.append ?_
  induction times with
  | zero => simp [RefIndex.firsts]
  | succ times ih =>
    intro c hc
    rcases List.mem_append.1 hc with hc | hc
    · have hone : ∀ c ∈ ":1".toList, c ∈ ':' :: englishSigns := forall_mem_of_all (by decide)
      exact hone c hc
    · exact ih c hc

/-- An address goes on with a number. -/
theorem append_number {w : Text} (h : IsAddress w) (n : Nat) :
    IsAddress (w ++ ':' :: decimalNat n) := by
  refine h.append fun c hc => ?_
  rcases List.mem_cons.1 hc with rfl | hc
  · exact List.mem_cons_self
  · exact List.mem_cons_of_mem _ (mem_englishSigns_of_isDigit (isDigit_of_mem_decimalNat hc))

/-- The canonical form of a title and an address. -/
theorem canonical_append {title w : Text} (ht : canonical title ≠ []) (h : IsAddress w) :
    canonical (title ++ ' ' :: w) = canonical title ++ ' ' :: w :=
  h.isFixedWord.canonical_append ht

end IsAddress

/-- `:1` a number of times holds no space. -/
theorem space_not_mem_firsts (times : Nat) : ' ' ∉ RefIndex.firsts times := by
  induction times with
  | zero => simp [RefIndex.firsts]
  | succ times ih => simpa [RefIndex.firsts] using ih

/-- **An address has a colon less than levels.** -/
theorem count_addressWord {kinds : List AddressKind} {place : List Nat}
    (h : place.length = kinds.length) (hk : kinds ≠ []) :
    (addressWord kinds place).count ':' + 1 = kinds.length := by
  have hcount (labels : List Text) (hl : ∀ label ∈ labels, ':' ∉ label) (hne : labels ≠ []) :
      (joinWith [':'] labels).count ':' + 1 = labels.length := by
    induction labels with
    | nil => exact absurd rfl hne
    | cons label labels ih =>
      have hlabel : label.count ':' = 0 := List.count_eq_zero.2 (hl label List.mem_cons_self)
      by_cases hn : labels = []
      · subst hn
        rw [joinWith_singleton, hlabel]
        rfl
      · have hrest := ih (fun l hm => hl l (List.mem_cons_of_mem _ hm)) hn
        rw [joinWith_cons [':'] label hn, List.count_append, List.count_append, hlabel,
          List.length_cons, ← hrest]
        simp
        omega
  rw [← length_englishLabels h]
  exact hcount _ (fun _ hl => colon_not_mem_englishLabels hl) (englishLabels_ne_nil hk h)

/-! ### What the keys lead to -/

/-- **A key that ends in a word with a digit** leads to the place with that word as address, and is
an end of its reference. -/
theorem FlatLeaf.exists_place_of_lookup {b : SourceBook} {layout : LeafLayout} {flat : FlatBook}
    {entries : List RefEntry} (h : FlatLeaf b layout flat entries) {titles : List (Int × List Text)}
    {offsets : List (Int × Int)} {w key : Text} {t : LineTarget}
    (hlookup : (RefIndex.build entries titles offsets).lookup key (some b.id) = some t)
    (hend : EndsIn w key) (hspace : ' ' ∉ w) (hdigit : ∃ c ∈ w, c.isDigit = true) :
    ∃ place i, (place, i) ∈ (leafPlaces layout.depth b.content).zipIdx ∧
      addressWord layout.addressKinds place = w ∧
        key <:+ canonical (placeRef b.titleEn layout.addressKinds place) ∧
          t = (placeEntry b.id b.titleEn b.hebrewTitle layout.addressKinds place i).target
            ((offsets.lookup b.id).getD 0) := by
  rw [h.lookup_build] at hlookup
  exact HebrewCorpus.exists_place_of_lookup h.kinds_ne_nil h.length_place hlookup hend hspace hdigit

/-- **No line registers a key that ends in a word with a digit** and with a sign that addresses are
not written with. -/
theorem FlatLeaf.lookup_eq_none {b : SourceBook} {layout : LeafLayout} {flat : FlatBook}
    {entries : List RefEntry} (h : FlatLeaf b layout flat entries) (titles : List (Int × List Text))
    (offsets : List (Int × Int)) {v key : Text} (hend : EndsIn v key) (hspace : ' ' ∉ v)
    (hsign : ∃ c ∈ v, c ∉ ':' :: englishSigns) (hdigit : ∃ c ∈ v, c.isDigit = true) :
    (RefIndex.build entries titles offsets).lookup key (some b.id) = none := by
  cases hlookup : (RefIndex.build entries titles offsets).lookup key (some b.id) with
  | none => rfl
  | some t =>
    -- the word would be the address of a place
    obtain ⟨place, i, -, rfl, -⟩ := h.exists_place_of_lookup hlookup hend hspace hdigit
    obtain ⟨c, hc, hnot⟩ := hsign
    exact absurd (mem_addressWord hc) hnot

namespace IndexedLeaf

variable {b : SourceBook} {layout : LeafLayout} {flat : FlatBook} {entries : List RefEntry}
  (h : IndexedLeaf b layout flat entries) (titles : List (Int × List Text))
  (offsets : List (Int × Int))

include h

/-- **A key that ends in an address leads only to the line with that address.** -/
theorem targetAt?_of_lookup {w key : Text} {t : LineTarget} (hw : IsAddress w) (hend : EndsIn w key)
    (hlookup : (RefIndex.build entries titles offsets).lookup key (some b.id) = some t) :
    b.targetAt? flat offsets w = some t ∧ w.count ':' + 1 = layout.depth := by
  have hleaf := h.flatLeaf
  obtain ⟨place, i, hp, rfl, -, rfl⟩ :=
    hleaf.exists_place_of_lookup hlookup hend hw.isWord.space_not_mem hw.2
  have hlen := hleaf.length_place place (List.fst_mem_of_mem_zipIdx hp)
  refine ⟨?_, by rw [count_addressWord hlen hleaf.kinds_ne_nil, hleaf.length_kinds]⟩
  obtain ⟨line, hline, href, -, hindex⟩ := hleaf.exists_line_of_mem_places hp
  have htarget := b.targetOf_eq_target offsets hindex b.titleEn b.hebrewTitle layout.addressKinds
    place
  have hsome : (flat.lineAt? (placeRef b.titleEn layout.addressKinds place)).isSome :=
    List.find?_isSome.2 ⟨line, hline, decide_eq_true href⟩
  obtain ⟨found, hfound⟩ := Option.isSome_iff_exists.1 hsome
  obtain ⟨hmem, hfoundRef⟩ := FlatBook.mem_of_lineAt? hfound
  -- both lines are the target of one key
  obtain ⟨r, hr, -, hr'⟩ := SourceBook.lookup_line h hline titles offsets
  obtain ⟨s, hs, -, hs'⟩ := SourceBook.lookup_line h hmem titles offsets
  obtain rfl : r = s := Option.some.inj ((hr.symm.trans href).trans (hs.symm.trans hfoundRef).symm)
  have hsame : b.targetOf offsets found = b.targetOf offsets line :=
    Option.some.inj (hs'.symm.trans hr')
  show (flat.lineAt? (placeRef b.titleEn layout.addressKinds place)).map (b.targetOf offsets) = _
  rw [hfound, Option.map_some, hsame, htarget]

/-- **The title and an address lead to the line with that address**, and to none when there is
none. -/
theorem lookup_eq {w : Text} (hw : IsAddress w) :
    (RefIndex.build entries titles offsets).lookup (canonical b.titleEn ++ ' ' :: w) (some b.id) =
      b.targetAt? flat offsets w := by
  rw [SourceBook.targetAt?]
  cases hline : flat.lineAt? (b.titleEn ++ ' ' :: w) with
  | some line =>
    obtain ⟨hmem, href⟩ := FlatBook.mem_of_lineAt? hline
    obtain ⟨ref, href', -, hlookup⟩ := SourceBook.lookup_line h hmem titles offsets
    obtain rfl : ref = b.titleEn ++ ' ' :: w := Option.some.inj (href'.symm.trans href)
    rw [← hw.canonical_append h.titled, hlookup]
    rfl
  | none =>
    cases hlookup : (RefIndex.build entries titles offsets).lookup
        (canonical b.titleEn ++ ' ' :: w) (some b.id) with
    | none => rfl
    | some t =>
      have hfound := (h.targetAt?_of_lookup titles offsets hw (.append _ w) hlookup).1
      rw [SourceBook.targetAt?, hline] at hfound
      cases hfound

/-- **Every line of the book is found at the address of its place.** -/
theorem exists_place_of_mem_lines {line : Line} (hline : line ∈ flat.lines) :
    ∃ place ∈ leafPlaces layout.depth b.content,
      line.ref = some (placeRef b.titleEn layout.addressKinds place) ∧
        b.targetAt? flat offsets (addressWord layout.addressKinds place) =
          some (b.targetOf offsets line) := by
  have hleaf := h.flatLeaf
  obtain ⟨place, i, hp, href, -, -⟩ := hleaf.exists_place_of_mem_lines hline
  have hmem := List.fst_mem_of_mem_zipIdx hp
  have hlabels := englishLabels_ne_nil hleaf.kinds_ne_nil (hleaf.length_place place hmem)
  obtain ⟨ref, href', -, hlookup⟩ := SourceBook.lookup_line h hline [] offsets
  obtain rfl : ref = placeRef b.titleEn layout.addressKinds place :=
    Option.some.inj (href'.symm.trans href)
  rw [canonical_placeRef h.titled hlabels, h.lookup_eq [] offsets (.addressWord hlabels)] at hlookup
  exact ⟨place, hmem, href, hlookup⟩

/-- **What a key that ends in an address leads to**, its readings and continuations included: the
line at the address, continued to the depth of the book. -/
theorem targetAt?_of_matchKey {w key : Text} {n : Nat} {depth : Int} {t : LineTarget}
    (hw : IsAddress w) (hn : w.count ':' + 1 + n = layout.depth) (hend : EndsIn w key)
    (hmatch : (RefIndex.build entries titles offsets).matchKey key (some b.id) depth = some t) :
    b.targetAt? flat offsets (w ++ RefIndex.firsts n) = some t := by
  obtain ⟨reading, hr, j, hlookup⟩ := RefIndex.exists_of_matchKey hmatch
  have hreading := endsIn_of_mem_dottedVariants hw.isWord hw.point_not_mem hend hr
  obtain ⟨hline, hcount⟩ := h.targetAt?_of_lookup titles offsets (hw.append_firsts j)
    (hreading.append_right (RefIndex.firsts j)) hlookup
  -- the colons tell how far the key was continued
  have hj : j = n := by
    rw [List.count_append, RefIndex.count_firsts] at hcount
    omega
  rw [← hj, hline]

/-- **What the title and an address lead to.** -/
theorem matchKey_eq {w : Text} {n : Nat} (hw : IsAddress w)
    (hn : w.count ':' + 1 + n = layout.depth) :
    (RefIndex.build entries titles offsets).matchKey (canonical b.titleEn ++ ' ' :: w) (some b.id)
        ((RefIndex.build entries titles offsets).depthOf (some b.id)) =
      b.targetAt? flat offsets (w ++ RefIndex.firsts n) := by
  let index := RefIndex.build entries titles offsets
  let key := canonical b.titleEn ++ ' ' :: w
  have hsound {t : LineTarget} (ht : index.matchKey key (some b.id) (index.depthOf (some b.id)) =
      some t) := h.targetAt?_of_matchKey titles offsets hw hn (.append _ w) ht
  cases hmatch : index.matchKey key (some b.id) (index.depthOf (some b.id)) with
  | some t => exact (hsound hmatch).symm
  | none =>
    cases hline : b.targetAt? flat offsets (w ++ RefIndex.firsts n) with
    | none => rfl
    | some t =>
      -- the continued key is among those that were tried
      have hlookup : index.lookup (key ++ RefIndex.firsts n) (some b.id) = some t := by
        have hkey : key ++ RefIndex.firsts n =
            canonical b.titleEn ++ ' ' :: (w ++ RefIndex.firsts n) := by simp [key]
        rw [hkey, h.lookup_eq titles offsets (hw.append_firsts n), hline]
      have hsqueeze : squeeze key = key := by
        have hcanonical := squeeze_canonical (b.titleEn ++ ' ' :: w)
        rwa [hw.canonical_append h.titled] at hcanonical
      obtain ⟨rest, hreadings⟩ := dottedVariants_eq_cons (show key ≠ [] by simp [key]) hsqueeze
      have hnone := (RefIndex.matchKey_depthOf_eq_none_iff entries titles offsets key (some b.id)).1
        hmatch key (hreadings ▸ List.mem_cons_self) n
      rw [hlookup] at hnone
      cases hnone

end IndexedLeaf

end HebrewCorpus
