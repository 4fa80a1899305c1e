import HebrewCorpus.Proofs.Citation.Tiers

/-! # Leeway in resolution

A citation is resolved by trying keys one after the other, and the leeway decides which keys there
are. Tiers that lead to another line of the chapter come behind all others, so they can only add a
line where there was none. Addresses without their titles stand between other keys, so they can lead
to another line, but never from a line to none.

* **`KeyQuery.candidates`**: the keys of a citation in the order in which they are tried;
  `RefIndex.resolve_eq_candidates` says that the first of them with a line decides.
* **`KeyQuery.isPrefix_candidates`**, **`KeyQuery.sublist_candidates`**: how the keys grow with the
  leeway.
* **`RefIndex.growsWithLeeway`**: more leeway loses no line. -/

namespace HebrewCorpus

/-! ### The keys of a citation -/

/-- **The keys of a tier**, none when the tier fails. -/
def Tier.keyList (q : KeyQuery) (tier : Tier) : List Text := (tier.keys q).toOption.getD []

/-- **The keys of a citation**, in the order in which they are tried, with the tiers that lead to
another line of the chapter or without them. -/
def KeyQuery.candidates (q : KeyQuery) (chapter : Bool) : List Text :=
  (Tier.chain.filter fun t => chapter || !t.isFallback).flatMap (Tier.keyList q)

namespace RefIndex

/-- A tier leads to the line of its first key that has one, also when it fails. -/
theorem matchTier_eq (index : RefIndex) (q : KeyQuery) (book : Option Int) (tier : Tier) :
    index.matchTier q book tier = (tier.keyList q).findSome? (index.tryKey book) := by
  rw [Tier.keyList]
  cases h : tier.keys q with
  | ok keys => exact matchTier_of_keys h
  | error fault =>
    rw [matchTier, h]
    rfl

/-- **A citation leads to the line of its first key that has one**, in the given book or in the one
whose title it starts with. -/
theorem resolve_eq_candidates (index : RefIndex) {text : Text} (h : canonical text ≠ [])
    (book : Option Int) (leeway : Leeway) :
    let within := book.or (index.bookFor (canonical text))
    index.resolve text book leeway =
      (KeyQuery.candidates ⟨canonical text, (within.map index.titlesOf).getD [],
        leeway.tail && within.isSome⟩ leeway.chapter).findSome? (index.tryKey within) := by
  have hempty : (canonical text).isEmpty = false := by simpa using h
  intro within
  rw [KeyQuery.candidates, findSome?_flatMap, resolve, hempty, if_neg (by simp)]
  exact findSome?_congr fun tier _ => index.matchTier_eq _ within tier

end RefIndex

/-! ### How the keys grow -/

namespace KeyQuery

/-- **The keys without the chapter tiers are the first ones** of those with them. -/
theorem isPrefix_candidates (q : KeyQuery) : q.candidates false <+: q.candidates true := by
  have hchain : Tier.chain.filter (fun t => true || !t.isFallback) =
      Tier.chain.filter (fun t => false || !t.isFallback) ++ [.chapterStart, .withinChapter] := rfl
  rw [candidates, candidates, hchain, List.flatMap_append]
  exact List.prefix_append _ _

variable (key : Text) (titles : List Text) {allowed allowed' : Bool}
  (h : allowed = true → allowed' = true)

include h

/-- An address that may be looked up without its title may be so with more leeway. -/
theorem sublist_tailKey (tail : Text) :
    List.Sublist (if allowed then [tail] else []) (if allowed' then [tail] else []) := by
  cases allowed with
  | false => exact List.nil_sublist _
  | true =>
    obtain rfl := h rfl
    exact .refl _

/-- The direct keys of a key grow with the leeway. -/
theorem sublist_directKeys (base : Text) :
    List.Sublist (directKeys ⟨key, titles, allowed⟩ base)
      (directKeys ⟨key, titles, allowed'⟩ base) :=
  (sublist_tailKey h _).append_left _

/-- **The keys of each tier grow with the leeway.** -/
theorem sublist_keyList (tier : Tier) :
    List.Sublist (tier.keyList ⟨key, titles, allowed⟩) (tier.keyList ⟨key, titles, allowed'⟩) := by
  cases tier with
  | exact => exact .refl _
  | aliasStripped => exact .refl _
  | numericTail => exact sublist_tailKey h _
  | rangeStart =>
    simp only [Tier.keyList, Tier.keys]
    cases rangeStart? key with
    | none => exact .refl _
    | some start => exact sublist_directKeys key titles h start
  | chapterStart =>
    simp only [Tier.keyList, Tier.keys]
    split
    · exact .refl _
    · exact sublist_directKeys key titles h _
  | withinChapter =>
    -- this tier counts down without regard to the leeway
    exact .refl _

/-- **No key of a citation is lost with more leeway.** -/
theorem sublist_candidates (chapter : Bool) :
    List.Sublist (candidates ⟨key, titles, allowed⟩ chapter)
      (candidates ⟨key, titles, allowed'⟩ chapter) := by
  rw [candidates, candidates]
  induction Tier.chain.filter fun t => chapter || !t.isFallback with
  | nil => exact .refl _
  | cons tier tiers ih => exact (sublist_keyList key titles h tier).append ih

end KeyQuery

/-! ### More leeway loses no line -/

/-- **Answers that grow with the leeway**: a line that is found without the chapter tiers is found
with them, and where a line is found without addresses that lack their titles, some line is found
with them. -/
structure GrowsWithLeeway (answer : RefIndex.Leeway → Option LineTarget) : Prop where
  chapter : ∀ tail t, answer ⟨false, tail⟩ = some t → answer ⟨true, tail⟩ = some t
  tail : ∀ chapter, (answer ⟨chapter, false⟩).isSome → (answer ⟨chapter, true⟩).isSome

/-- What is never found grows with the leeway. -/
theorem GrowsWithLeeway.of_eq_none {answer : RefIndex.Leeway → Option LineTarget}
    (h : ∀ leeway, answer leeway = none) : GrowsWithLeeway answer := by
  constructor
  · intro tail t ht
    rw [h] at ht
    cases ht
  · intro chapter hsome
    rw [h] at hsome
    cases hsome

namespace RefIndex

/-- What a text leads to grows with the leeway. -/
theorem growsWithLeeway_resolve (index : RefIndex) (text : Text) (book : Option Int) :
    GrowsWithLeeway (index.resolve text book) := by
  by_cases h : canonical text = []
  · -- a text without a canonical form leads nowhere
    have hnone (leeway : Leeway) : index.resolve text book leeway = none := by
      rw [resolve, h]
      rfl
    exact .of_eq_none hnone
  · constructor
    · intro tail t ht
      rw [index.resolve_eq_candidates h] at ht ⊢
      exact (KeyQuery.isPrefix_candidates _).findSome?_eq_some ht
    · intro chapter hsome
      rw [index.resolve_eq_candidates h] at hsome ⊢
      exact (KeyQuery.sublist_candidates _ _ (by simp) chapter).findSome?_isSome hsome

/-- What a citation leads to grows with the leeway. -/
theorem growsWithLeeway_resolveCitation (index : RefIndex) (c : Citation) (book : Option Int) :
    GrowsWithLeeway (index.resolveCitation c book) := by
  cases hwritten : c.written with
  | ok text =>
    have htext : index.resolveCitation c book = index.resolve text book := by
      funext leeway
      rw [resolveCitation, hwritten]
    rw [htext]
    exact index.growsWithLeeway_resolve text book
  | error fault =>
    have hnone (leeway : Leeway) : index.resolveCitation c book leeway = none := by
      rw [resolveCitation, hwritten]
    exact .of_eq_none hnone

/-- **More leeway loses no line**, for texts and for citations, within a book and without one. -/
theorem growsWithLeeway (index : RefIndex) (book : Option Int) :
    (∀ text, GrowsWithLeeway (index.resolve text book)) ∧
      ∀ c : Citation, GrowsWithLeeway (index.resolveCitation c book) :=
  ⟨fun text => index.growsWithLeeway_resolve text book,
    fun c => index.growsWithLeeway_resolveCitation c book⟩

/-- Leeway for addresses can change the line. Without it the preface is cited, by the start of its
chapter, and with it the address alone leads to a line of the book itself. -/
example :
    let index := build [⟨"Ruth 3:2".toList, [], 1, 7⟩, ⟨"Ruth Preface 3:1".toList, [], 2, 7⟩]
      [(7, ["Ruth".toList])] [(7, 100)]
    index.resolve "Ruth Preface 3:2".toList (some 7) ⟨true, false⟩ = some ⟨7, 101, 1⟩ ∧
      index.resolve "Ruth Preface 3:2".toList (some 7) ⟨true, true⟩ = some ⟨7, 100, 0⟩ := by
  decide +kernel

end RefIndex

end HebrewCorpus
