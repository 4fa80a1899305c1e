import HebrewCorpus.Proofs.Citation.AddressKeys
import HebrewCorpus.Proofs.Numeral.Decimal
import HebrewCorpus.Proofs.Text.Trim

/-! # The tiers of a citation of a leaf

A citation of a book that is one leaf, made of the book's title and an address, runs through the
tiers with keys that all end in an address. So each tier leads to the line at one address, or to
none, and the last tier to the first of several addresses with a line.

* **`RefIndex.resolve_eq_findSome?`**: the tiers of a citation within any book.
* **`RefIndex.matchTier_countdown`**: the last tier counts down within the unit of its key.
* **`IndexedLeaf.findSome?_tryKey`**: keys with one address at their ends.
* **`IndexedLeaf.matchTier_exact`**, **`IndexedLeaf.matchTier_chapterStart`**,
  **`IndexedLeaf.matchTier_withinChapter`**: the tiers that can lead to a line.
* **`IndexedLeaf.matchTier_aliasStripped`**, **`IndexedLeaf.matchTier_numericTail`**,
  **`IndexedLeaf.matchTier_rangeStart`**: the tiers that cannot lead to another one. -/

namespace HebrewCorpus

open AddressKind Text

/-! ### First results -/

/-- Where every result is the same one, and something leads to it or to nothing when it is none,
that one is the first result. -/
theorem findSome?_eq_of_forall {α β : Type} {f : α → Option β} {as : List α} {r : Option β}
    (hall : ∀ a ∈ as, ∀ b, f a = some b → r = some b) (hone : ∃ a ∈ as, f a = r) :
    as.findSome? f = r := by
  cases h : as.findSome? f with
  | some b =>
    obtain ⟨a, ha, hb⟩ := List.exists_of_findSome?_eq_some h
    exact (hall a ha b hb).symm
  | none =>
    obtain ⟨a, ha, hr⟩ := hone
    rw [← hr]
    exact (List.findSome?_eq_none_iff.1 h a ha).symm

/-- The first results of two functions are the same when the functions agree on the list. -/
theorem findSome?_congr {α β : Type} {f g : α → Option β} {as : List α}
    (h : ∀ a ∈ as, f a = g a) : as.findSome? f = as.findSome? g := by
  induction as with
  | nil => rfl
  | cons a as ih =>
    rw [List.findSome?_cons, List.findSome?_cons, h a List.mem_cons_self,
      ih fun x hx => h x (List.mem_cons_of_mem _ hx)]

/-- The first result among lists of things is the first one that a list has. -/
theorem findSome?_flatMap {α β γ : Type} (f : β → Option γ) (g : α → List β) (as : List α) :
    (as.flatMap g).findSome? f = as.findSome? fun a => (g a).findSome? f := by
  induction as with
  | nil => rfl
  | cons a as ih =>
    rw [List.flatMap_cons, List.findSome?_append, ih, List.findSome?_cons]
    cases (g a).findSome? f <;> rfl

/-- A count down to 1 starts with its greatest number. -/
theorem findSome?_countdown_succ {α : Type} (f : Nat → Option α) (n : Nat) :
    (List.range' 1 (n + 1)).reverse.findSome? f =
      (f (n + 1)).or ((List.range' 1 n).reverse.findSome? f) := by
  rw [List.range'_1_concat, List.reverse_concat, Nat.add_comm 1 n, List.findSome?_cons]
  cases f (n + 1) <;> rfl

/-- **The first result of a count down to 1** is the one at the greatest number that has one. -/
theorem findSome?_countdown_eq_some_iff {α : Type} {f : Nat → Option α} {n : Nat} {a : α} :
    (List.range' 1 n).reverse.findSome? f = some a ↔
      ∃ m, 1 ≤ m ∧ m ≤ n ∧ f m = some a ∧ ∀ k, m < k → k ≤ n → f k = none := by
  induction n with
  | zero =>
    constructor
    · rintro ⟨⟩
    · rintro ⟨m, hm, hle, -⟩
      omega
  | succ n ih =>
    rw [findSome?_countdown_succ]
    cases hlast : f (n + 1) with
    | some b =>
      rw [Option.some_or]
      constructor
      · rintro ⟨⟩
        exact ⟨n + 1, by omega, by omega, hlast, fun k hk hle => by omega⟩
      · rintro ⟨m, -, hle, ha, hnone⟩
        -- a smaller number is passed over by the greatest one
        by_cases hm : m = n + 1
        · rw [← hlast, ← hm, ha]
        · rw [hnone (n + 1) (by omega) (by omega)] at hlast
          cases hlast
    | none =>
      rw [Option.none_or, ih]
      refine exists_congr fun m => ?_
      constructor
      · rintro ⟨h₁, h₂, ha, hnone⟩
        refine ⟨h₁, by omega, ha, fun k hk hle => ?_⟩
        by_cases hlt : k = n + 1
        · rw [hlt, hlast]
        · exact hnone k hk (by omega)
      · rintro ⟨h₁, h₂, ha, hnone⟩
        have hne : m ≠ n + 1 := by
          rintro rfl
          rw [hlast] at ha
          cases ha
        exact ⟨h₁, by omega, ha, fun k hk hle => hnone k hk (by omega)⟩

namespace RefIndex

/-- **The line that a key leads to** within a book; the empty key leads to none. -/
def tryKey (index : RefIndex) (book : Option Int) (key : Text) : Option LineTarget :=
  if key.isEmpty then none else index.matchKey key book (index.depthOf book)

/-- A tier leads to the line of its first key that has one. -/
theorem matchTier_of_keys {index : RefIndex} {q : KeyQuery} {book : Option Int} {tier : Tier}
    {keys : List Text} (h : tier.keys q = .ok keys) :
    index.matchTier q book tier = keys.findSome? (index.tryKey book) := by
  rw [matchTier, h]
  rfl

end RefIndex

/-- **A citation within a book** runs through the tiers that its leeway admits. -/
theorem RefIndex.resolve_eq_findSome? (index : RefIndex) {text : Text} (book : Int) (leeway : Leeway)
    (h : canonical text ≠ []) :
    index.resolve text (some book) leeway =
      (Tier.chain.filter fun t => leeway.chapter || !t.isFallback).findSome?
        (index.matchTier ⟨canonical text, index.titlesOf book, leeway.tail⟩ (some book)) := by
  have hempty : (canonical text).isEmpty = false := by simpa using h
  rw [resolve, hempty]
  simp

/-- With the chapter tiers, a citation within a book runs through all tiers. -/
theorem RefIndex.resolve_eq_findSome?_chain (index : RefIndex) {text : Text} (book : Int)
    (allowTail : Bool) (h : canonical text ≠ []) :
    index.resolve text (some book) ⟨true, allowTail⟩ =
      Tier.chain.findSome?
        (index.matchTier ⟨canonical text, index.titlesOf book, allowTail⟩ (some book)) := by
  rw [index.resolve_eq_findSome? book ⟨true, allowTail⟩ h]
  rfl

/-- A key without a hyphen is no range. -/
theorem rangeStart?_eq_none {key : Text} (h : '-' ∉ key) : rangeStart? key = none := by
  rw [rangeStart?, cutAt_eq_self h]

/-! ### Parts of keys -/

/-- **The chapter of a key** without a hyphen is what stands in front of its first colon. -/
theorem chapterOf_eq {chapter rest : Text} (hcolon : ':' ∉ chapter) (htrim : trim chapter = chapter)
    (hhyphen : '-' ∉ chapter ++ ':' :: rest) :
    KeyQuery.chapterOf (chapter ++ ':' :: rest) = chapter := by
  rw [KeyQuery.chapterOf, cutAt_eq_self hhyphen]
  show trim (cutAt ':' (chapter ++ ':' :: rest)).1 = chapter
  rw [cutAt_append hcolon, htrim]

/-- **The last number of a key** without a hyphen, with the unit in front of it. -/
theorem lastNumber?_append {unit digits : Text} (hunit : unit ≠ []) (hdigits : digits ≠ [])
    (hall : ∀ c ∈ digits, isDecimalDigit c = true) (hhyphen : '-' ∉ unit ++ ':' :: digits) :
    KeyQuery.lastNumber? (unit ++ ':' :: digits) = some (unit, digits) := by
  have hcolon : ':' ∉ digits := fun hc => absurd (hall _ hc) (by decide)
  have htake : digits.takeWhile isDecimalDigit = digits := by
    rw [← List.append_nil digits, List.takeWhile_append_of_pos fun c hc => hall c (by simpa using hc)]
    rfl
  rw [KeyQuery.lastNumber?, rangeStart?_eq_none hhyphen, Option.getD_none, cutLast?_append _ hcolon]
  simp [htake, hunit, hdigits]

/-- **The last tier counts down within the unit** of a key, and tries each number in full and without
a title. -/
theorem RefIndex.matchTier_countdown (index : RefIndex) {q : KeyQuery} (book : Option Int)
    {unit digits : Text} {n : Nat} (hlast : KeyQuery.lastNumber? q.key = some (unit, digits))
    (hn : readDigits digits = .ok n) :
    index.matchTier q book .withinChapter = (List.range' 1 n).reverse.findSome? fun k =>
      [unit ++ ':' :: decimalNat k, stripAlias (unit ++ ':' :: decimalNat k) q.titles].findSome?
        (index.tryKey book) := by
  have hkeys : Tier.withinChapter.keys q = .ok (q.countdownKeys unit n) := by
    rw [Tier.keys, hlast]
    show (readDigits digits).map _ = _
    rw [hn]
    rfl
  rw [RefIndex.matchTier_of_keys hkeys, KeyQuery.countdownKeys, findSome?_flatMap]

/-- **The direct keys of a key with a fixed word at its end** end in that word. -/
theorem endsIn_of_mem_directKeys {q : KeyQuery} {front w key : Text} (hw : IsFixedWord w)
    (h : key ∈ q.directKeys (front ++ ' ' :: w)) : EndsIn w key := by
  have hend : EndsIn w (front ++ ' ' :: w) := .append front w
  have htail : EndsIn w (canonicalTail (front ++ ' ' :: w)) := by
    have hwords : canonicalWords w = [] ++ [w] := hw.canonicalWords_eq
    exact endsIn_addressTail hw.isWord.space_not_mem (endsIn_canonical_append_space front w hwords)
  rcases List.mem_append.1 h with h | h
  · simp only [List.mem_cons, List.not_mem_nil, or_false] at h
    rcases h with rfl | rfl
    · exact hend
    · exact endsIn_stripAlias hw.isWord hend q.titles
  · split at h
    · rw [List.mem_singleton.1 h]
      exact htail
    · cases h

namespace IndexedLeaf

variable {b : SourceBook} {layout : LeafLayout} {flat : FlatBook} {entries : List RefEntry}
  (h : IndexedLeaf b layout flat entries) (titles : List (Int × List Text))
  (offsets : List (Int × Int)) (aliases : List Text) {w : Text}

include h

/-- What a key that ends in an address leads to. -/
theorem targetAt?_of_tryKey {key : Text} {n : Nat} {t : LineTarget} (hw : IsAddress w)
    (hn : w.count ':' + 1 + n = layout.depth) (hend : EndsIn w key)
    (ht : (RefIndex.build entries titles offsets).tryKey (some b.id) key = some t) :
    b.targetAt? flat offsets (w ++ RefIndex.firsts n) = some t := by
  unfold RefIndex.tryKey at ht
  split at ht
  · cases ht
  · exact h.targetAt?_of_matchKey titles offsets hw hn hend ht

/-- **Keys with one address at their ends**, the full one among them, lead to the line at that
address. -/
theorem findSome?_tryKey {keys : List Text} {n : Nat} (hw : IsAddress w)
    (hn : w.count ':' + 1 + n = layout.depth) (hends : ∀ key ∈ keys, EndsIn w key)
    (hfull : canonical b.titleEn ++ ' ' :: w ∈ keys) :
    keys.findSome? ((RefIndex.build entries titles offsets).tryKey (some b.id)) =
      b.targetAt? flat offsets (w ++ RefIndex.firsts n) := by
  refine findSome?_eq_of_forall ?_ ⟨_, hfull, ?_⟩
  · intro key hkey t ht
    exact h.targetAt?_of_tryKey titles offsets hw hn (hends key hkey) ht
  · have hne : (canonical b.titleEn ++ ' ' :: w).isEmpty = false := by simp
    rw [RefIndex.tryKey, hne]
    exact h.matchKey_eq titles offsets hw hn

/-! ### Tiers for the address itself -/

section Direct

variable (hw : IsAddress w) (hdepth : w.count ':' + 1 = layout.depth)

include hw hdepth

/-- **The first tier leads to the line at the address.** -/
theorem matchTier_exact :
    (RefIndex.build entries titles offsets).matchTier
        ⟨canonical b.titleEn ++ ' ' :: w, aliases, true⟩ (some b.id) .exact =
      b.targetAt? flat offsets w := by
  rw [RefIndex.matchTier_of_keys rfl, h.findSome?_tryKey titles offsets (n := 0) hw hdepth]
  · rw [RefIndex.firsts, List.append_nil]
  · intro key hkey
    rw [List.mem_singleton.1 hkey]
    exact .append _ w
  · exact List.mem_singleton_self _

/-- A single key that ends in the address leads to no other line. -/
theorem targetAt?_of_matchTier {tier : Tier} {key : Text} {t : LineTarget} (hend : EndsIn w key)
    (hkeys : tier.keys ⟨canonical b.titleEn ++ ' ' :: w, aliases, true⟩ = .ok [key])
    (ht : (RefIndex.build entries titles offsets).matchTier
      ⟨canonical b.titleEn ++ ' ' :: w, aliases, true⟩ (some b.id) tier = some t) :
    b.targetAt? flat offsets w = some t := by
  rw [RefIndex.matchTier_of_keys hkeys] at ht
  obtain ⟨k, hk, ht⟩ := List.exists_of_findSome?_eq_some ht
  rw [List.mem_singleton.1 hk] at ht
  have hfound := h.targetAt?_of_tryKey titles offsets hw (n := 0) hdepth hend ht
  rwa [RefIndex.firsts, List.append_nil] at hfound

/-- The key without its title leads to no other line. -/
theorem matchTier_aliasStripped {t : LineTarget}
    (ht : (RefIndex.build entries titles offsets).matchTier
      ⟨canonical b.titleEn ++ ' ' :: w, aliases, true⟩ (some b.id) .aliasStripped = some t) :
    b.targetAt? flat offsets w = some t :=
  h.targetAt?_of_matchTier titles offsets aliases hw hdepth
    (endsIn_stripAlias hw.isWord (.append _ w) aliases) rfl ht

/-- The address alone leads to no other line. -/
theorem matchTier_numericTail {t : LineTarget}
    (ht : (RefIndex.build entries titles offsets).matchTier
      ⟨canonical b.titleEn ++ ' ' :: w, aliases, true⟩ (some b.id) .numericTail = some t) :
    b.targetAt? flat offsets w = some t := by
  have hwords : canonicalWords w = [] ++ [w] := hw.isFixedWord.canonicalWords_eq
  have hend : EndsIn w (canonicalTail (canonical b.titleEn ++ ' ' :: w)) :=
    endsIn_addressTail hw.isWord.space_not_mem (endsIn_canonical_append_space _ w hwords)
  exact h.targetAt?_of_matchTier titles offsets aliases hw hdepth hend rfl ht

end Direct

/-! ### Tiers for other addresses -/

omit h in
/-- Without a hyphen there is no range to start from. -/
theorem matchTier_rangeStart {index : RefIndex} {q : KeyQuery} {book : Option Int}
    (hkey : '-' ∉ q.key) : index.matchTier q book .rangeStart = none := by
  have hkeys : Tier.rangeStart.keys q = .ok [] := by
    rw [Tier.keys, rangeStart?_eq_none hkey]
    rfl
  rw [RefIndex.matchTier_of_keys hkeys, List.findSome?_nil]

/-- **The chapter tier leads to the first line of the chapter**: the first number of the address,
and 1 on every level below. -/
theorem matchTier_chapterStart {chapter : Text} (rest : Text) (hc : IsAddress chapter)
    (hone : ':' ∉ chapter) (hdepth : 2 ≤ layout.depth) (hcolon : ':' ∉ canonical b.titleEn)
    (hhyphen : '-' ∉ canonical b.titleEn ++ ' ' :: (chapter ++ ':' :: rest)) :
    (RefIndex.build entries titles offsets).matchTier
        ⟨canonical b.titleEn ++ ' ' :: (chapter ++ ':' :: rest), aliases, true⟩ (some b.id)
          .chapterStart =
      b.targetAt? flat offsets (chapter ++ RefIndex.firsts (layout.depth - 1)) := by
  let q : KeyQuery := ⟨canonical b.titleEn ++ ' ' :: (chapter ++ ':' :: rest), aliases, true⟩
  have hkey : q.key = (canonical b.titleEn ++ ' ' :: chapter) ++ ':' :: rest := by simp [q]
  have hfront : ':' ∉ canonical b.titleEn ++ ' ' :: chapter := by
    simp only [List.mem_append, List.mem_cons, not_or]
    exact ⟨hcolon, by decide, hone⟩
  have htrim : trim (canonical b.titleEn ++ ' ' :: chapter) =
      canonical b.titleEn ++ ' ' :: chapter := by
    rw [← hc.canonical_append h.titled, ← squeeze_canonical, trim_squeeze]
  have hchapter : KeyQuery.chapterOf q.key = canonical b.titleEn ++ ' ' :: chapter := by
    rw [hkey]
    exact chapterOf_eq hfront htrim (hkey ▸ hhyphen)
  have hkeys : Tier.chapterStart.keys q =
      .ok (q.directKeys (canonical b.titleEn ++ ' ' :: (chapter ++ ":1".toList))) := by
    rw [Tier.keys, hchapter, if_neg (by simp)]
    simp
  have hfirst : IsAddress (chapter ++ ":1".toList) := hc.append_firsts 1
  have hcount : (chapter ++ ":1".toList).count ':' + 1 + (layout.depth - 2) = layout.depth := by
    rw [List.count_append, List.count_eq_zero.2 hone]
    show 0 + 1 + 1 + (layout.depth - 2) = layout.depth
    omega
  -- the first `:1` is part of the key, the others are its continuation
  have hfirsts : (chapter ++ ":1".toList) ++ RefIndex.firsts (layout.depth - 2) =
      chapter ++ RefIndex.firsts (layout.depth - 1) := by
    have hsucc : layout.depth - 1 = layout.depth - 2 + 1 := by omega
    rw [hsucc, List.append_assoc]
    rfl
  rw [RefIndex.matchTier_of_keys hkeys, ← hfirsts]
  exact h.findSome?_tryKey titles offsets hfirst hcount
    (fun key hk => endsIn_of_mem_directKeys hfirst.isFixedWord hk) (by simp [KeyQuery.directKeys])

/-- **The last tier counts down within the unit**, from the last number of the address to 1. -/
theorem matchTier_withinChapter {unit : Text} {p : Nat} (hu : IsAddress unit)
    (hcount : unit.count ':' + 2 = layout.depth) (hdigits : (decimalNat p).length ≤ maxDigits)
    (hhyphen : '-' ∉ canonical b.titleEn ++ ' ' :: (unit ++ ':' :: decimalNat p)) :
    (RefIndex.build entries titles offsets).matchTier
        ⟨canonical b.titleEn ++ ' ' :: (unit ++ ':' :: decimalNat p), aliases, true⟩ (some b.id)
          .withinChapter =
      (List.range' 1 p).reverse.findSome? fun k =>
        b.targetAt? flat offsets (unit ++ ':' :: decimalNat k) := by
  let q : KeyQuery := ⟨canonical b.titleEn ++ ' ' :: (unit ++ ':' :: decimalNat p), aliases, true⟩
  have hkey : q.key = (canonical b.titleEn ++ ' ' :: unit) ++ ':' :: decimalNat p := by simp [q]
  have hlast : KeyQuery.lastNumber? q.key =
      some (canonical b.titleEn ++ ' ' :: unit, decimalNat p) := by
    rw [hkey]
    exact lastNumber?_append (by simp) (decimalNat_ne_nil p)
      (fun _ hc => isDecimalDigit_of_mem_decimalNat hc) (hkey ▸ hhyphen)
  rw [RefIndex.matchTier_countdown _ _ hlast (readDigits_decimalNat hdigits)]
  -- the two keys of each number lead to the line at one address
  refine congrArg (fun f => (List.range' 1 p).reverse.findSome? f) (funext fun k => ?_)
  have hkey : canonical b.titleEn ++ ' ' :: unit ++ ':' :: decimalNat k =
      canonical b.titleEn ++ ' ' :: (unit ++ ':' :: decimalNat k) := by simp
  have hdepth : (unit ++ ':' :: decimalNat k).count ':' + 1 + 0 = layout.depth := by
    rw [List.count_append, List.count_cons_self,
      List.count_eq_zero.2 (colon_not_mem_decimalNat k)]
    omega
  have haddress := hu.append_number k
  rw [hkey, h.findSome?_tryKey titles offsets haddress hdepth ?_ List.mem_cons_self,
    RefIndex.firsts, List.append_nil]
  intro key hk
  simp only [List.mem_cons, List.not_mem_nil, or_false] at hk
  rcases hk with rfl | rfl
  · exact .append _ _
  · exact endsIn_stripAlias haddress.isWord (.append _ _) q.titles

end IndexedLeaf

end HebrewCorpus
