import HebrewCorpus.Proofs.Citation.Registration
import Mathlib.Data.Nat.Find

/-! # The depth of an index

A key that names a chapter is tried with `:1` behind it, and again, as often as the depth of the index
allows. No key of the index is deeper than that, so nothing is lost: the search finds what one without
an end would find.

* **`firstHit`**: what an endless search finds.
* **`RefIndex.keyDepth_le_depthOf`**: no key is deeper than the table that holds it.
* **`RefIndex.findSome?_continuations`**: a bounded search finds what an endless one finds, where
  nothing stands behind its bound.
* **`RefIndex.matchKey_eq_firstHit`**: the line under a key is the one that the endless search finds. -/

namespace HebrewCorpus

/-! ### Endless searches -/

section Search

variable {α : Type} {f : Nat → Option α}

/-- **The first hit of an endless search**: what the first of the tries `f 0`, `f 1`, … to find
something finds, and nothing where none of them does. -/
noncomputable def firstHit (f : Nat → Option α) : Option α :=
  open Classical in if h : ∃ n, (f n).isSome then f (Nat.find h) else none

/-- What an endless search finds is what some try finds, and no try before it finds anything. -/
theorem firstHit_eq_some_iff {a : α} :
    firstHit f = some a ↔ ∃ n, f n = some a ∧ ∀ m < n, f m = none := by
  classical
  rw [firstHit]
  split
  · next h =>
    have hbefore (m : Nat) (hm : m < Nat.find h) : f m = none := by
      simpa using Nat.find_min h hm
    constructor
    · intro ha
      exact ⟨Nat.find h, ha, hbefore⟩
    · rintro ⟨n, ha, hnone⟩
      have hfind : Nat.find h = n := by
        apply (Nat.find_eq_iff h).2
        simpa [ha] using hnone
      rw [hfind, ha]
  · next h =>
    constructor
    · rintro ⟨⟩
    · rintro ⟨n, ha, -⟩
      exact absurd ⟨n, by rw [ha, Option.isSome_some]⟩ h

/-- An endless search finds nothing exactly when no try does. -/
theorem firstHit_eq_none_iff : firstHit f = none ↔ ∀ n, f n = none := by
  classical
  rw [firstHit]
  split
  · next h =>
    constructor
    · intro hnone
      have hfound := Nat.find_spec h
      rw [hnone] at hfound
      cases hfound
    · intro hnone
      exact hnone _
  · next h =>
    simpa using h

/-- **An endless search goes on behind its first try** when that finds nothing. -/
theorem firstHit_eq_or (f : Nat → Option α) :
    firstHit f = (f 0).or (firstHit fun n => f (n + 1)) := by
  cases hfirst : f 0 with
  | some a =>
    rw [Option.some_or]
    exact firstHit_eq_some_iff.2 ⟨0, hfirst, fun m hm => absurd hm (Nat.not_lt_zero m)⟩
  | none =>
    rw [Option.none_or]
    cases hrest : firstHit fun n => f (n + 1) with
    | none =>
      rw [firstHit_eq_none_iff] at hrest ⊢
      intro n
      cases n with
      | zero => exact hfirst
      | succ n => exact hrest n
    | some a =>
      obtain ⟨n, ha, hnone⟩ := firstHit_eq_some_iff.1 hrest
      refine firstHit_eq_some_iff.2 ⟨n + 1, ha, fun m hm => ?_⟩
      cases m with
      | zero => exact hfirst
      | succ m => exact hnone m (Nat.lt_of_succ_lt_succ hm)

end Search

namespace RefIndex

/-- **A bounded search finds what an endless one finds**, where nothing stands behind its bound. -/
theorem findSome?_continuations {γ : Type} {find : Text → Option γ} {key : Text} {times : Nat}
    (hbehind : ∀ n, times < n → find (key ++ firsts n) = none) :
    (continuations key times).findSome? find = firstHit fun n => find (key ++ firsts n) := by
  induction times generalizing key with
  | zero =>
    have hrest : (firstHit fun n => find (key ++ firsts (n + 1))) = none :=
      firstHit_eq_none_iff.2 fun n => hbehind (n + 1) (Nat.succ_pos n)
    rw [firstHit_eq_or, hrest, Option.or_none, firsts, List.append_nil, continuations,
      List.findSome?_singleton]
  | succ times ih =>
    -- the rest of the search starts with one `:1` more
    have hnext (n : Nat) : key ++ firsts (n + 1) = key ++ ":1".toList ++ firsts n :=
      (List.append_assoc ..).symm
    have hrest : (continuations (key ++ ":1".toList) times).findSome? find =
        firstHit fun n => find (key ++ ":1".toList ++ firsts n) := by
      apply ih
      intro n hn
      rw [← hnext]
      exact hbehind (n + 1) (Nat.succ_lt_succ hn)
    rw [firstHit_eq_or, continuations, List.findSome?_cons, hrest]
    simp only [hnext]
    rw [firsts, List.append_nil]
    cases find key <;> rfl

/-! ### No key is too deep -/

/-- The greatest number of a list is not below the one it starts from, nor below any in it. -/
theorem le_foldl_max {n : Nat} {ns : List Nat} (start : Nat) (h : n = start ∨ n ∈ ns) :
    n ≤ ns.foldl max start := by
  induction ns generalizing n start with
  | nil =>
    rcases h with rfl | h
    · exact Nat.le_refl _
    · cases h
  | cons m ns ih =>
    have hm := ih (max start m) (.inl rfl)
    rcases h with rfl | h
    · exact Nat.le_trans (Nat.le_max_left ..) hm
    · rcases List.mem_cons.1 h with rfl | h
      · exact Nat.le_trans (Nat.le_max_right ..) hm
      · exact ih (max start m) (.inr h)

section Build

variable (entries : List RefEntry) (titles : List (Int × List Text)) (offsets : List (Int × Int))

/-- **No key of a book's scope is deeper** than the index says. -/
theorem keyDepth_le_depthOf_build {book : Int} {key : Text} {t : LineTarget}
    (h : (build entries titles offsets).lookup key (some book) = some t) :
    keyDepth key ≤ (build entries titles offsets).depthOf (some book) := by
  rw [lookup_build] at h
  have hdepth := getD_lookup_scopes_build entries titles offsets (·.maxDepth) 0 rfl book
  rw [depthOf, hdepth]
  exact le_foldl_max 0 (.inr (List.mem_map.2 ⟨(key, t), mem_of_lookup_eq_some h, rfl⟩))

/-- No book is deeper than the whole corpus. -/
theorem depthOf_le_maxDepth (book : Int) :
    (build entries titles offsets).depthOf (some book) ≤ (build entries titles offsets).maxDepth := by
  rw [depthOf]
  cases hscope : (build entries titles offsets).scopes.lookup book with
  | none => exact Nat.zero_le _
  | some scope =>
    have hmem := List.mem_map_of_mem (f := (·.2.maxDepth)) (mem_of_lookup_eq_some hscope)
    exact le_foldl_max 0 (.inr hmem)

/-- **No key is deeper than the table that holds it**, be it the one of a book or of the corpus. -/
theorem keyDepth_le_depthOf {key : Text} {book : Option Int} {t : LineTarget}
    (h : (build entries titles offsets).lookup key book = some t) :
    keyDepth key ≤ (build entries titles offsets).depthOf book := by
  cases book with
  | some book => exact keyDepth_le_depthOf_build entries titles offsets h
  | none =>
    -- a full key of a reference is also one of the keys of its book
    obtain ⟨e, he, hfull, -⟩ := exists_of_lookup_flatMap h
    have hkey : key ≠ [] := by
      rintro rfl
      simp [RefEntry.fullKeys] at hfull
    have hsome : ((build entries titles offsets).lookup key (some e.book)).isSome := by
      rw [lookup_build_eq_find?, Option.isSome_map, List.find?_isSome]
      exact ⟨e, he, decide_eq_true ⟨rfl, (RefEntry.mem_scopeKeys hkey).2 (.inl hfull)⟩⟩
    obtain ⟨t', ht'⟩ := Option.isSome_iff_exists.1 hsome
    exact Nat.le_trans (keyDepth_le_depthOf_build entries titles offsets ht')
      (depthOf_le_maxDepth entries titles offsets e.book)

/-- Behind the depth of the table there is nothing under any continuation of a key. -/
theorem lookup_eq_none_of_deep {key : Text} {book : Option Int} {n : Nat}
    (h : ((build entries titles offsets).depthOf book - keyDepth key : Int).toNat < n) :
    (build entries titles offsets).lookup (key ++ firsts n) book = none := by
  cases hlookup : (build entries titles offsets).lookup (key ++ firsts n) book with
  | none => rfl
  | some t =>
    have hdepth := keyDepth_le_depthOf entries titles offsets hlookup
    rw [keyDepth, List.count_append, count_firsts, ← keyDepth] at hdepth
    omega

/-- The readings of a key are each searched to the end. -/
theorem matchKey_depthOf (key : Text) (book : Option Int) :
    (build entries titles offsets).matchKey key book ((build entries titles offsets).depthOf book) =
      (dottedVariants key).findSome? fun reading =>
        firstHit fun n => (build entries titles offsets).lookup (reading ++ firsts n) book := by
  rw [matchKey]
  congr 1
  funext reading
  apply findSome?_continuations
  intro n hn
  exact lookup_eq_none_of_deep entries titles offsets hn

/-- A key leads to no line exactly when the table holds no continuation of any of its readings. -/
theorem matchKey_depthOf_eq_none_iff (key : Text) (book : Option Int) :
    (build entries titles offsets).matchKey key book ((build entries titles offsets).depthOf book) =
        none ↔
      ∀ reading ∈ dottedVariants key, ∀ n,
        (build entries titles offsets).lookup (reading ++ firsts n) book = none := by
  rw [matchKey_depthOf, List.findSome?_eq_none_iff]
  simp only [firstHit_eq_none_iff]

/-- **The depth of an index loses nothing.** The line under a key, within a book or in the whole corpus,
is the one that an endless search finds, which goes through the readings of the key and tries each as
it stands and with any number of `:1` behind it; and there is none only if the table holds none of
these keys. -/
theorem matchKey_eq_firstHit (key : Text) (book : Option Int) :
    let index := build entries titles offsets
    index.matchKey key book (index.depthOf book) =
      (dottedVariants key).findSome?
        (fun reading => firstHit fun n => index.lookup (reading ++ firsts n) book) ∧
    (index.matchKey key book (index.depthOf book) = none ↔
      ∀ reading ∈ dottedVariants key, ∀ n, index.lookup (reading ++ firsts n) book = none) := by
  intro index
  exact ⟨matchKey_depthOf entries titles offsets key book,
    matchKey_depthOf_eq_none_iff entries titles offsets key book⟩

end Build

/-- With a depth below that of the index the line would be missed. -/
example :
    let index := build [⟨"Ruth 1:3:1:1".toList, [], 1, 7⟩] [(7, ["Ruth".toList])] []
    index.matchKey "ruth 1:3".toList (some 7) 3 = some ⟨7, 0, 0⟩ ∧
      index.matchKey "ruth 1:3".toList (some 7) 2 = none ∧ index.depthOf none = 3 := by
  decide +kernel

end RefIndex

end HebrewCorpus
