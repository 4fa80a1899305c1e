import HebrewCorpus.Proofs.Citation.Canonical
import HebrewCorpus.Proofs.Text.SmallLetters
import HebrewCorpus.Proofs.Text.Trim
import Mathlib.Data.List.Chain
import Mathlib.Data.List.DropRight

/-! # Canonical forms are normal forms

The canonical form of a reference is made of fixed words with single spaces between them, and such
a text is its own canonical form. The words from the first address word on are such a text again, so
the index and the resolver may take canonical forms as often as they like.

* **`isFixedWord_of_mem_canonicalWords`**, **`canonical_joinWith`**: the canonical forms are the
  texts of fixed words.
* **`IsTidy`**: the texts without commas, quotation marks and stray white space.
* **`pieces_addressTail`**, **`isSuffix_addressTail`**: the words from the first address word on.
* **`IsGap`**: what may stand between two texts that are joined; `canonicalWords_append_gap` is the
  joining law for words.
* **`canonical_laws`**: the laws that the index and the resolver share. -/

namespace HebrewCorpus

open Text

/-! ### Texts of fixed words -/

/-- The code points of the characters that a canonical form leaves out. -/
def markRanges : List (Nat × Nat) :=
  [(0x22, 0x22), (0x27, 0x27), (0x2c, 0x2c), (0x60, 0x60), (0x5f3, 0x5f4), (0x2018, 0x2019),
    (0x201c, 0x201d)]

/-- Lower-casing brings in no commas and no quotation marks. -/
theorem isKept_of_mem_lower {s : Text} (h : ∀ c ∈ s, isKept c = true) {c : Char}
    (hc : c ∈ lower s) : isKept c = true := by
  have hranges : ∀ m ∈ ',' :: quoteMarks, inRanges markRanges m.toNat = true :=
    forall_mem_of_all (by decide)
  cases hk : isKept c with
  | true => rfl
  | false =>
    have hmark : inRanges markRanges c.toNat = true :=
      hranges c (List.mem_cons.2 (isKept_eq_false_iff.1 hk))
    have hs : c ∈ s :=
      mem_of_mem_lowerFrom (show isCaseFree markRanges = true by decide)
        (forall_mem_of_all (by decide)) hmark (lower_eq_lowerFrom s ▸ hc)
    rw [h c hs] at hk
    cases hk

/-- **The words of a canonical form are fixed words.** -/
theorem isFixedWord_of_mem_canonicalWords {s w : Text} (h : w ∈ canonicalWords s) :
    IsFixedWord w := by
  obtain ⟨v, hv, rfl⟩ := List.mem_map.1 h
  have hword := isWord_of_mem_canonicalWords h
  have hkept : ∀ c ∈ v, isKept c = true := fun c hc =>
    (List.mem_filter.1 (mem_of_mem_words hv hc)).2
  refine ⟨hword.1, fun c hc => ⟨hword.2 c hc, isKept_of_mem_lower hkept hc, ?_⟩⟩
  rw [lower_eq_lowerFrom] at hc
  exact lowerChar_of_mem_lowerFrom hc

/-- Fixed words with single spaces between them are the canonical words of their text. -/
theorem canonicalWords_joinWith {ws : List Text} (h : ∀ w ∈ ws, IsFixedWord w) :
    canonicalWords (joinWith [' '] ws) = ws := by
  induction ws with
  | nil => rfl
  | cons w ws ih =>
    have hw := (h w List.mem_cons_self).canonicalWords_eq
    have hrest := ih fun v hv => h v (List.mem_cons_of_mem _ hv)
    by_cases hne : ws = []
    · subst hne
      rw [joinWith_singleton, hw]
    · rw [joinWith_cons [' '] w hne, List.append_assoc, List.singleton_append,
        canonicalWords_append_blank isBlankChar_space, hw, hrest]
      rfl

/-- **A text of fixed words is its own canonical form.** -/
theorem canonical_joinWith {ws : List Text} (h : ∀ w ∈ ws, IsFixedWord w) :
    canonical (joinWith [' '] ws) = joinWith [' '] ws := by
  rw [canonical_eq_joinWith, canonicalWords_joinWith h]

/-- **Taking the canonical form twice is taking it once.** -/
theorem canonical_canonical (s : Text) : canonical (canonical s) = canonical s := by
  rw [canonical_eq_joinWith s]
  exact canonical_joinWith fun _ hw => isFixedWord_of_mem_canonicalWords hw

/-! ### Tidy texts -/

/-- Neighbours of which at most one is white space. -/
def AreParted (c d : Char) : Prop := isBlankChar c = true → isBlankChar d = false

/-- **A tidy text**: no comma, no quotation mark, no white space at its ends and no two white-space
characters side by side. -/
structure IsTidy (s : Text) : Prop where
  unmarked : ∀ c ∈ s, c ≠ ',' ∧ c ∉ quoteMarks
  trimmed : IsTrimmed s
  parted : s.IsChain AreParted

/-- Words with single spaces between them have no two white-space characters side by side. -/
theorem isChain_joinWith {ws : List Text} (h : ∀ w ∈ ws, IsWord w) :
    (joinWith [' '] ws).IsChain AreParted := by
  induction ws with
  | nil => exact .nil
  | cons w ws ih =>
    have hword := h w List.mem_cons_self
    have hothers : ∀ v ∈ ws, IsWord v := fun v hv => h v (List.mem_cons_of_mem _ hv)
    have hpairs : w.Pairwise AreParted :=
      List.pairwise_of_forall_mem_list fun _ _ d hd _ => hword.2 d hd
    by_cases hne : ws = []
    · subst hne
      rw [joinWith_singleton]
      exact hpairs.isChain
    · -- the space stands behind the end of a word and in front of the start of the next one
      rw [joinWith_cons [' '] w hne, List.append_assoc]
      have hbehind : ([' '] ++ joinWith [' '] ws).IsChain AreParted :=
        (ih hothers).cons fun d hd _ => (isTrimmed_joinWith hothers).head d hd
      refine hpairs.isChain.append hbehind ?_
      intro c hc d _ hblank
      rw [hword.2 c (List.mem_of_getLast? hc)] at hblank
      cases hblank

/-- **Canonical forms are tidy.** -/
theorem isTidy_canonical (s : Text) : IsTidy (canonical s) := by
  have hwords : ∀ w ∈ canonicalWords s, IsWord w := fun w hw => isWord_of_mem_canonicalWords hw
  rw [canonical_eq_joinWith]
  refine ⟨?_, isTrimmed_joinWith hwords, isChain_joinWith hwords⟩
  intro c hc
  have hkept : isKept c = true := by
    rcases mem_joinWith hc with hc | ⟨w, hw, hc⟩
    · rw [List.mem_singleton.1 hc]
      decide
    · exact ((isFixedWord_of_mem_canonicalWords hw).2 c hc).2.1
  rw [← not_or, ← isKept_eq_false_iff, hkept]
  decide

/-! ### The words from the address on -/

/-- **The pieces from the first address word on**; all of them where there is none. -/
def addressPieces (ps : List Text) : List Text :=
  match ps.dropWhile (!isAddressWord ·) with
  | [] => ps
  | tail => tail

/-- Pieces without an address word are kept. -/
theorem addressPieces_of_eq_nil {ps : List Text} (h : ps.dropWhile (!isAddressWord ·) = []) :
    addressPieces ps = ps := by
  rw [addressPieces, h]

/-- Pieces with an address word are kept from it on. -/
theorem addressPieces_of_ne_nil {ps : List Text} (h : ps.dropWhile (!isAddressWord ·) ≠ []) :
    addressPieces ps = ps.dropWhile (!isAddressWord ·) := by
  obtain ⟨p, tail, htail⟩ := List.exists_cons_of_ne_nil h
  rw [addressPieces, htail]

/-- **What stands in front of the pieces from the address on** holds no address word. -/
theorem exists_front_addressPieces (ps : List Text) :
    ∃ front, ps = front ++ addressPieces ps ∧ ∀ w ∈ front, isAddressWord w = false := by
  by_cases h : ps.dropWhile (!isAddressWord ·) = []
  · exact ⟨[], by rw [addressPieces_of_eq_nil h, List.nil_append], nofun⟩
  · refine ⟨ps.takeWhile (!isAddressWord ·), ?_, ?_⟩
    · rw [addressPieces_of_ne_nil h, List.takeWhile_append_dropWhile]
    · intro w hw
      simpa using List.all_eq_true.1 List.all_takeWhile w hw

/-- The pieces from the address on start with it, so nothing more is left out of them. -/
theorem addressPieces_addressPieces (ps : List Text) :
    addressPieces (addressPieces ps) = addressPieces ps := by
  by_cases h : ps.dropWhile (!isAddressWord ·) = []
  · rw [addressPieces_of_eq_nil h, addressPieces_of_eq_nil h]
  · have hdrop : (ps.dropWhile (!isAddressWord ·)).dropWhile (!isAddressWord ·) =
        ps.dropWhile (!isAddressWord ·) := List.dropWhile_idempotent _ _
    rw [addressPieces_of_ne_nil h, addressPieces_of_ne_nil (by rwa [hdrop]), hdrop]

/-- There is always a piece from the address on. -/
theorem addressPieces_ne_nil {ps : List Text} (h : ps ≠ []) : addressPieces ps ≠ [] := by
  by_cases hdrop : ps.dropWhile (!isAddressWord ·) = []
  · rwa [addressPieces_of_eq_nil hdrop]
  · rwa [addressPieces_of_ne_nil hdrop]

/-- The address of a key is what is left of its pieces. -/
theorem addressTail_eq (key : Text) :
    addressTail key = joinWith [' '] (addressPieces (pieces ' ' key)) := by
  by_cases h : (pieces ' ' key).dropWhile (!isAddressWord ·) = []
  · rw [addressPieces_of_eq_nil h, addressTail, h]
    exact (List.intercalate_splitOn ' ').symm
  · obtain ⟨p, tail, htail⟩ := List.exists_cons_of_ne_nil h
    rw [addressPieces_of_ne_nil h, addressTail, htail]

/-- **The address of a key is the end of the key.** -/
theorem isSuffix_addressTail (key : Text) : addressTail key <:+ key := by
  obtain ⟨front, hfront, -⟩ := exists_front_addressPieces (pieces ' ' key)
  have hjoin : joinWith [' '] (pieces ' ' key) = key := List.intercalate_splitOn ' '
  rw [addressTail_eq]
  by_cases h : front = []
  · subst h
    rw [List.nil_append] at hfront
    have hself : joinWith [' '] (addressPieces (pieces ' ' key)) = key := by rw [← hfront, hjoin]
    exact ⟨[], hself⟩
  · have hne : addressPieces (pieces ' ' key) ≠ [] :=
      addressPieces_ne_nil (List.splitOn_ne_nil ' ' key)
    refine ⟨joinWith [' '] front ++ [' '], ?_⟩
    rw [← joinWith_append [' '] h hne, ← hfront, hjoin]

/-- **The pieces of an address** are the pieces of the key from its first address word on. -/
theorem pieces_addressTail (key : Text) :
    pieces ' ' (addressTail key) = addressPieces (pieces ' ' key) := by
  obtain ⟨front, hfront, -⟩ := exists_front_addressPieces (pieces ' ' key)
  have hsolid : ∀ p ∈ addressPieces (pieces ' ' key), ' ' ∉ p := by
    intro p hp
    refine not_mem_of_mem_pieces (s := key) ?_
    rw [hfront]
    exact List.mem_append_right _ hp
  rw [addressTail_eq]
  exact List.splitOn_intercalate ' ' hsolid (addressPieces_ne_nil (List.splitOn_ne_nil ' ' key))

/-- The words from the address on start with it, so the address of an address is the address. -/
theorem addressTail_addressTail (key : Text) : addressTail (addressTail key) = addressTail key := by
  rw [addressTail_eq (addressTail key), pieces_addressTail, addressPieces_addressPieces,
    ← addressTail_eq]

/-- The pieces of a canonical form are its words, if it has any. -/
theorem pieces_canonical {s : Text} (h : canonical s ≠ []) :
    pieces ' ' (canonical s) = canonicalWords s := by
  rw [canonical_eq_joinWith]
  exact pieces_joinWith (fun _ hw => isWord_of_mem_canonicalWords hw)
    (mt canonical_eq_nil_iff.2 h)

/-- **The address of a canonical form is a canonical form itself.** -/
theorem canonical_canonicalTail (s : Text) : canonical (canonicalTail s) = canonicalTail s := by
  by_cases h : canonical s = []
  · rw [canonicalTail, h]
    rfl
  · obtain ⟨front, hfront, -⟩ := exists_front_addressPieces (canonicalWords s)
    rw [canonicalTail, addressTail_eq, pieces_canonical h]
    refine canonical_joinWith fun w hw => isFixedWord_of_mem_canonicalWords (s := s) ?_
    rw [hfront]
    exact List.mem_append_right _ hw

/-! ### Joined texts -/

/-- **A gap between two texts**: white space, commas and quotation marks, with some white space. -/
structure IsGap (gap : Text) : Prop where
  empty : ∀ c ∈ gap, isBlankChar c = true ∨ c = ',' ∨ c ∈ quoteMarks
  parting : ∃ c ∈ gap, isBlankChar c = true

/-- What a canonical form keeps of a gap is white space. -/
theorem IsGap.isBlank_filter {gap : Text} (h : IsGap gap) : isBlank (gap.filter isKept) = true := by
  refine List.all_eq_true.2 fun c hc => ?_
  obtain ⟨hmem, hkept⟩ := List.mem_filter.1 hc
  refine (h.empty c hmem).resolve_right fun hmark => ?_
  rw [isKept_eq_false_iff.2 hmark] at hkept
  cases hkept

/-- **The joining law for words**: a gap holds no words and parts those on its two sides. -/
theorem canonicalWords_append_gap {gap : Text} (h : IsGap gap) (s t : Text) :
    canonicalWords (s ++ gap ++ t) = canonicalWords s ++ canonicalWords t := by
  obtain ⟨c, hmem, hc⟩ := h.parting
  have hblank := h.isBlank_filter
  -- the white space that the gap holds parts the words, and the rest of it holds none
  obtain ⟨d, rest, hrest⟩ : ∃ d rest, gap.filter isKept = d :: rest :=
    List.exists_cons_of_ne_nil
      (List.ne_nil_of_mem (List.mem_filter.2 ⟨hmem, isKept_of_isBlankChar hc⟩))
  rw [hrest, isBlank, List.all_cons, Bool.and_eq_true] at hblank
  rw [canonicalWords, List.filter_append, List.filter_append, hrest, List.append_assoc,
    List.cons_append, words_append_blank hblank.1, words_isBlank_append hblank.2, List.map_append,
    ← canonicalWords, ← canonicalWords]

/-- **The joining law**: over a gap the canonical forms are joined by a single space. -/
theorem canonical_append_gap {s gap t : Text} (hs : canonical s ≠ []) (ht : canonical t ≠ [])
    (h : IsGap gap) : canonical (s ++ gap ++ t) = canonical s ++ ' ' :: canonical t := by
  rw [← canonical_append_space hs ht, canonical_eq_joinWith, canonicalWords_append_gap h,
    ← canonicalWords_append_blank isBlankChar_space, ← canonical_eq_joinWith]

/-! ### The laws of canonical forms -/

/-- **The laws that the index and the resolver share.** Canonical forms are tidy and are their own
canonical forms. The address is the same for a text and its canonical form, is its own address, and
consists of the words of the canonical form from the first address word on. Texts that are joined
over a gap have their canonical forms joined by a single space. -/
theorem canonical_laws :
    (∀ s, canonical (canonical s) = canonical s ∧ IsTidy (canonical s) ∧
      canonicalTail (canonical s) = canonicalTail s ∧
      canonicalTail (canonicalTail s) = canonicalTail s ∧
      ∃ front, pieces ' ' (canonical s) = front ++ pieces ' ' (canonicalTail s) ∧
        ∀ w ∈ front, isAddressWord w = false) ∧
    ∀ s gap t, canonical s ≠ [] → canonical t ≠ [] → IsGap gap →
      canonical (s ++ gap ++ t) = canonical s ++ ' ' :: canonical t := by
  refine ⟨fun s => ⟨canonical_canonical s, isTidy_canonical s, ?_, ?_, ?_⟩,
    fun s gap t hs ht hgap => canonical_append_gap hs ht hgap⟩
  · rw [canonicalTail, canonical_canonical, canonicalTail]
  · rw [canonicalTail, canonical_canonicalTail, canonicalTail, addressTail_addressTail]
  · rw [canonicalTail, pieces_addressTail]
    exact exists_front_addressPieces _

/-- A title in Greek capitals, whose last sigma becomes a final one, and an address in quotation
marks behind a comma and a no-break space. -/
theorem canonical_laws_odyssey :
    canonical "ΟΔΥΣΣΕΥΣ".toList ≠ [] ∧ canonical "3:1\"".toList ≠ [] ∧
      IsGap [',', '\u00a0', ' ', '"'] ∧
      canonical ("ΟΔΥΣΣΕΥΣ".toList ++ [',', '\u00a0', ' ', '"'] ++ "3:1\"".toList) =
        "οδυσσευς 3:1".toList := by
  have hs : canonical "ΟΔΥΣΣΕΥΣ".toList = "οδυσσευς".toList := by decide +kernel
  have ht : canonical "3:1\"".toList = "3:1".toList := by decide +kernel
  have hgap : IsGap [',', '\u00a0', ' ', '"'] :=
    ⟨forall_mem_of_all (by decide), '\u00a0', by simp, by decide⟩
  have hs₀ : canonical "ΟΔΥΣΣΕΥΣ".toList ≠ [] := by rw [hs]; decide
  have ht₀ : canonical "3:1\"".toList ≠ [] := by rw [ht]; decide
  refine ⟨hs₀, ht₀, hgap, ?_⟩
  rw [canonical_laws.2 _ _ _ hs₀ ht₀ hgap, hs, ht]
  rfl

end HebrewCorpus
