import HebrewCorpus.Citation.Resolve
import HebrewCorpus.Proofs.Citation.Canonical

/-! # Lookups in a reference index

The index of a corpus keeps a scope for each book. What is found in a scope was registered by a
reference of the book, and a key that only one line registers leads to that line.

* **`exists_of_lookup_flatMap`**, **`lookup_flatMap_eq_some`**: keys registered by a list of things.
* **`RefIndex.scopeOf`**: the scope that the index of a corpus holds for a book; `lookup_build` looks
  a key up in it.
* **`RefIndex.mem_continuations`**: the keys that are tried after one.
* **`RefIndex.resolve_of_matchKey`**, **`RefIndex.resolve_of_lookup`**: a citation whose key leads
  to a line needs no looser tier.
* **`RefIndex.exists_entry_of_resolve`**: a citation leads to the line of some reference. -/

namespace HebrewCorpus

open Text

/-! ### Registered keys -/

section Registered

variable {α γ : Type} {keysOf : α → List Text} {targetOf : α → γ} {as : List α} {key : Text}

/-- What is in a list of pairs under a key is found there or something before it is. -/
theorem mem_of_lookup_eq_some {β γ : Type} [BEq β] [LawfulBEq β] {t : List (β × γ)} {k : β} {c : γ}
    (h : t.lookup k = some c) : (k, c) ∈ t := by
  obtain ⟨front, back, rfl, -⟩ := List.lookup_eq_some_iff.1 h
  exact List.mem_append_right _ List.mem_cons_self

/-- **What is found under a key was registered there.** -/
theorem exists_of_lookup_flatMap {t : γ}
    (h : (as.flatMap fun a => (keysOf a).map (·, targetOf a)).lookup key = some t) :
    ∃ a ∈ as, key ∈ keysOf a ∧ t = targetOf a := by
  obtain ⟨a, ha, hm⟩ := List.mem_flatMap.1 (mem_of_lookup_eq_some h)
  obtain ⟨k, hk, he⟩ := List.mem_map.1 hm
  injection he with hkey ht
  exact ⟨a, ha, hkey ▸ hk, ht.symm⟩

/-- **A key that all who register it register for one thing** leads to that thing. -/
theorem lookup_flatMap_eq_some {a : α} (ha : a ∈ as) (hk : key ∈ keysOf a)
    (honly : ∀ b ∈ as, key ∈ keysOf b → targetOf b = targetOf a) :
    (as.flatMap fun a => (keysOf a).map (·, targetOf a)).lookup key = some (targetOf a) := by
  have hmem : (key, targetOf a) ∈ as.flatMap fun a => (keysOf a).map (·, targetOf a) :=
    List.mem_flatMap.2 ⟨a, ha, List.mem_map.2 ⟨key, hk, rfl⟩⟩
  -- something is found, and what was registered under the key is one thing
  have hsome : ((as.flatMap fun a => (keysOf a).map (·, targetOf a)).lookup key).isSome :=
    List.lookup_isSome_iff.2 ⟨_, hmem, beq_self_eq_true key⟩
  obtain ⟨t, ht⟩ := Option.isSome_iff_exists.1 hsome
  obtain ⟨b, hb, hkb, rfl⟩ := exists_of_lookup_flatMap ht
  rw [ht, honly b hb hkb]

/-- **A key leads to what the first who registered it registered it for.** -/
theorem lookup_flatMap_eq_find? (as : List α) (key : Text) :
    (as.flatMap fun a => (keysOf a).map (·, targetOf a)).lookup key =
      (as.find? fun a => decide (key ∈ keysOf a)).map targetOf := by
  have own (a : α) : ((keysOf a).map (·, targetOf a)).lookup key =
      if key ∈ keysOf a then some (targetOf a) else none := by
    induction keysOf a with
    | nil => simp
    | cons k ks ih =>
      rw [List.map_cons, List.lookup_cons, ih]
      by_cases h : key = k
      · simp [h]
      · simp [h, beq_false_of_ne h]
  induction as with
  | nil => rfl
  | cons a as ih =>
    rw [List.flatMap_cons, List.lookup_append, own, ih]
    by_cases h : key ∈ keysOf a <;> simp [h]

end Registered

/-- A table in which the first of several pairs with one key counts finds what the list of the pairs
finds. -/
theorem lookup_foldl_first {γ : Type} (entries found : List (Text × γ)) (key : Text) :
    (entries.foldl (fun found e =>
      if (found.lookup e.1).isSome then found else found ++ [e]) found).lookup key =
        (found.lookup key).or (entries.lookup key) := by
  induction entries generalizing found with
  | nil => simp
  | cons e entries ih =>
    obtain ⟨k, v⟩ := e
    rw [List.foldl_cons, ih, List.lookup_cons]
    by_cases hk : key = k
    · subst hk
      rw [beq_self_eq_true]
      split
      · next h =>
        obtain ⟨w, hw⟩ := Option.isSome_iff_exists.1 h
        rw [hw, Option.some_or, Option.some_or]
      · next h =>
        rw [Option.not_isSome_iff_eq_none.1 h, List.lookup_append, List.lookup_cons_self]
        simp [Option.not_isSome_iff_eq_none.1 h]
    · rw [beq_false_of_ne hk]
      split
      · rfl
      · rw [List.lookup_append, List.lookup_cons, beq_false_of_ne hk]
        simp

/-- Numbers paired with what belongs to them are found by their numbers. -/
theorem lookup_map_self {β : Type} (f : Int → β) (bs : List Int) (b : Int) :
    (bs.map fun b => (b, f b)).lookup b = if b ∈ bs then some (f b) else none := by
  induction bs with
  | nil => rfl
  | cons c bs ih =>
    rw [List.map_cons, List.lookup_cons, ih]
    by_cases h : b = c
    · subst h
      rw [beq_self_eq_true, if_pos List.mem_cons_self]
    · rw [beq_false_of_ne h]
      simp [h]

/-- What things with different numbers are paired with is found by their numbers. -/
theorem lookup_map_of_nodup {α β : Type} (idOf : α → Int) (f : α → β) {as : List α}
    (distinct : (as.map idOf).Nodup) {a : α} (h : a ∈ as) :
    (as.map fun a => (idOf a, f a)).lookup (idOf a) = some (f a) := by
  induction as with
  | nil => cases h
  | cons b as ih =>
    rw [List.map_cons, List.nodup_cons] at distinct
    rw [List.map_cons, List.lookup_cons]
    rcases List.mem_cons.1 h with rfl | h
    · rw [beq_self_eq_true]
    · have hne : idOf a ≠ idOf b := fun he => distinct.1 (he ▸ List.mem_map_of_mem h)
      rw [beq_false_of_ne hne]
      exact ih distinct.2 h

/-- The distinct numbers of a list are its numbers. -/
theorem mem_distinctBooks {b : Int} {bs : List Int} : b ∈ distinctBooks bs ↔ b ∈ bs := by
  have grow (seen : List Int) :
      (b ∈ bs.foldl (fun seen b => if seen.elem b then seen else seen ++ [b]) seen) ↔
        b ∈ seen ∨ b ∈ bs := by
    induction bs generalizing seen with
    | nil => simp
    | cons c bs ih =>
      rw [List.foldl_cons, ih]
      split
      · next hc =>
        rw [List.elem_eq_mem, decide_eq_true_eq] at hc
        constructor
        · rintro (h | h)
          · exact .inl h
          · exact .inr (List.mem_cons_of_mem _ h)
        · rintro (h | h)
          · exact .inl h
          · rcases List.mem_cons.1 h with rfl | h
            · exact .inl hc
            · exact .inr h
      · rw [List.mem_append, List.mem_singleton, List.mem_cons, or_assoc]
  rw [distinctBooks, grow []]
  simp

/-- **The keys of a scope** come in the order of the references. -/
theorem BookScope.keys_build_append (titles : List Text) (offset : Int) (front back : List RefEntry) :
    (build titles offset (front ++ back)).keys =
      (build titles offset front).keys ++ (build titles offset back).keys :=
  List.flatMap_append

namespace RefIndex

/-! ### Scopes -/

section Scopes

variable (entries : List RefEntry) (titles : List (Int × List Text)) (offsets : List (Int × Int))

/-- **The scope of a book** in the index of a corpus. -/
def scopeOf (book : Int) : BookScope :=
  .build (orderedTitles ((titles.lookup book).getD [])) ((offsets.lookup book).getD 0)
    (entries.filter (·.book = book))

/-- A book without titles and references has an empty scope. -/
theorem scopeOf_eq_empty {book : Int} (ht : book ∉ titles.map (·.1))
    (he : book ∉ entries.map (·.book)) : scopeOf entries titles offsets book = ⟨[], [], 0⟩ := by
  have hlookup : titles.lookup book = none := by
    rw [List.lookup_eq_none_iff]
    intro p hp
    exact bne_iff_ne.2 fun h => ht (h ▸ List.mem_map_of_mem hp)
  have hentries : entries.filter (·.book = book) = [] := by
    rw [List.filter_eq_nil_iff]
    intro e hm h
    exact he (of_decide_eq_true h ▸ List.mem_map_of_mem hm)
  rw [scopeOf, hlookup, hentries]
  rfl

/-- The index holds the scope of each book that has titles or references. -/
theorem lookup_scopes_build (book : Int) :
    (build entries titles offsets).scopes.lookup book =
      if book ∈ titles.map (·.1) ++ entries.map (·.book) then
        some (scopeOf entries titles offsets book)
      else none := by
  have h := lookup_map_self (scopeOf entries titles offsets)
    (distinctBooks (titles.map (·.1) ++ entries.map (·.book))) book
  simp only [mem_distinctBooks] at h
  exact h

/-- What the index says of a book is what its scope says. -/
theorem getD_lookup_scopes_build {β : Type} (f : BookScope → β) (default : β)
    (hf : f ⟨[], [], 0⟩ = default) (book : Int) :
    (((build entries titles offsets).scopes.lookup book).map f).getD default =
      f (scopeOf entries titles offsets book) := by
  rw [lookup_scopes_build]
  split
  · rfl
  · next h =>
    rw [List.mem_append, not_or] at h
    rw [scopeOf_eq_empty entries titles offsets h.1 h.2, hf]
    rfl

/-- **Within a book, keys are looked up in its scope.** -/
theorem lookup_build (key : Text) (book : Int) :
    (build entries titles offsets).lookup key (some book) =
      (scopeOf entries titles offsets book).keys.lookup key := by
  have h := getD_lookup_scopes_build entries titles offsets (fun s => s.keys.lookup key) none rfl book
  rw [← h]
  show ((build entries titles offsets).scopes.lookup book).bind _ = _
  cases (build entries titles offsets).scopes.lookup book with
  | none => rfl
  | some scope => rfl

end Scopes

/-- **A key of a reference within its book** is the reference in full, without a title, or from its
address on. -/
theorem eq_of_mem_scopeKeysOf {titles : List Text} {ref key : Text}
    (h : key ∈ scopeKeysOf titles ref) :
    key = canonical ref ∨ key = stripAlias (canonical ref) titles ∨ key = canonicalTail ref := by
  unfold scopeKeysOf at h
  dsimp only at h
  split at h
  · cases h
  · simpa using (List.mem_filter.1 h).1

/-! ### Keys that are tried -/

/-- `:1` a number of times. -/
def firsts : (times : Nat) → Text
  | 0 => []
  | times + 1 => ":1".toList ++ firsts times

/-- `:1` a number of times has as many colons. -/
theorem count_firsts (times : Nat) : (firsts times).count ':' = times := by
  induction times with
  | zero => rfl
  | succ times ih => rw [firsts, List.count_append, ih]; exact Nat.add_comm 1 times

/-- **The continuations of a key** are the key with `:1` after it, up to a number of times. -/
theorem mem_continuations {k key : Text} {times : Nat} :
    k ∈ continuations key times ↔ ∃ j ≤ times, k = key ++ firsts j := by
  induction times generalizing key with
  | zero =>
    rw [continuations, List.mem_singleton]
    constructor
    · rintro rfl
      exact ⟨0, Nat.le_refl 0, (List.append_nil k).symm⟩
    · rintro ⟨j, hj, rfl⟩
      rw [Nat.le_zero.1 hj]
      exact List.append_nil key
  | succ times ih =>
    rw [continuations, List.mem_cons, ih]
    constructor
    · rintro (rfl | ⟨j, hj, rfl⟩)
      · exact ⟨0, Nat.zero_le _, (List.append_nil k).symm⟩
      · exact ⟨j + 1, Nat.succ_le_succ hj, List.append_assoc ..⟩
    · rintro ⟨j, hj, rfl⟩
      cases j with
      | zero => exact .inl (List.append_nil key)
      | succ j => exact .inr ⟨j, Nat.le_of_succ_le_succ hj, (List.append_assoc ..).symm⟩

/-- **What a key leads to stands under a continuation of one of its readings.** -/
theorem exists_of_matchKey {index : RefIndex} {key : Text} {book : Option Int} {depth : Int}
    {t : LineTarget} (h : index.matchKey key book depth = some t) :
    ∃ reading ∈ dottedVariants key, ∃ j, index.lookup (reading ++ firsts j) book = some t := by
  obtain ⟨reading, hr, h⟩ := List.exists_of_findSome?_eq_some h
  obtain ⟨k, hk, h⟩ := List.exists_of_findSome?_eq_some h
  obtain ⟨j, -, rfl⟩ := mem_continuations.1 hk
  exact ⟨reading, hr, j, h⟩

/-- A key with a result has it before its continuations. -/
theorem findSome?_continuations_of_some {γ : Type} {find : Text → Option γ} {key : Text} {t : γ}
    (h : find key = some t) (times : Nat) : (continuations key times).findSome? find = some t := by
  cases times <;> rw [continuations, List.findSome?_cons, h]

/-- A key without a result, however far it is continued, has none. -/
theorem findSome?_continuations_eq_none {γ : Type} {find : Text → Option γ} {key : Text}
    (h : ∀ j, find (key ++ firsts j) = none) (times : Nat) :
    (continuations key times).findSome? find = none := by
  rw [List.findSome?_eq_none_iff]
  intro k hk
  obtain ⟨j, -, rfl⟩ := mem_continuations.1 hk
  exact h j

/-- A canonical key that leads to a line leads to it before any other key is tried. -/
theorem matchKey_of_lookup {index : RefIndex} {key : Text} {book : Option Int} {t : LineTarget}
    (hkey : key ≠ []) (hs : squeeze key = key) (h : index.lookup key book = some t) (depth : Int) :
    index.matchKey key book depth = some t := by
  obtain ⟨rest, hr⟩ := dottedVariants_eq_cons hkey hs
  rw [matchKey, hr, List.findSome?_cons, findSome?_continuations_of_some h]

/-- **A citation whose key leads to a line** is resolved to that line, whatever the leeway: the key
is tried before all others. -/
theorem resolve_of_matchKey {index : RefIndex} {text : Text} {book : Option Int} {t : LineTarget}
    (hkey : canonical text ≠ [])
    (h : index.matchKey (canonical text) (book.or (index.bookFor (canonical text)))
      (index.depthOf (book.or (index.bookFor (canonical text)))) = some t)
    (leeway : Leeway) : index.resolve text book leeway = some t := by
  have hempty : (canonical text).isEmpty = false := by simpa using hkey
  have hexact : Tier.chain.filter (fun t => leeway.chapter || !t.isFallback) =
      .exact :: Tier.chain.tail.filter fun t => leeway.chapter || !t.isFallback := by
    rw [Tier.chain, List.filter_cons_of_pos (by simp [Tier.isFallback])]
    rfl
  rw [resolve, hempty, if_neg (by simp)]
  dsimp only
  rw [hexact, List.findSome?_cons]
  simp [matchTier, Tier.keys, hkey, h]

/-- **A citation that is itself a key** is resolved to the line under it, whatever the leeway. -/
theorem resolve_of_lookup {index : RefIndex} {text : Text} {book : Option Int} {t : LineTarget}
    (hkey : canonical text ≠ [])
    (h : index.lookup (canonical text) (book.or (index.bookFor (canonical text))) = some t)
    (leeway : Leeway) : index.resolve text book leeway = some t :=
  resolve_of_matchKey hkey (matchKey_of_lookup hkey (squeeze_canonical text) h _) leeway

/-! ### What citations can lead to -/

section Sound

variable {entries : List RefEntry} {titles : List (Int × List Text)} {offsets : List (Int × Int)}
variable {book : Option Int} {t : LineTarget}

/-- What stands under a key is the line of a reference, and within a book of one of its own. -/
theorem exists_entry_of_lookup_build {key : Text}
    (h : (build entries titles offsets).lookup key book = some t) :
    ∃ e ∈ entries, t = e.target ((offsets.lookup e.book).getD 0) ∧ ∀ b, book = some b → e.book = b := by
  cases book with
  | none =>
    obtain ⟨e, he, -, ht⟩ := exists_of_lookup_flatMap h
    exact ⟨e, he, ht, fun b hb => nomatch hb⟩
  | some b =>
    -- the scope of a book is made of its own references, with its own offset
    rw [lookup_build] at h
    obtain ⟨e, he, -, ht⟩ := exists_of_lookup_flatMap h
    obtain ⟨hmem, hbook⟩ := List.mem_filter.1 he
    have hbook : e.book = b := of_decide_eq_true hbook
    refine ⟨e, hmem, ?_, fun c hc => hbook.trans (Option.some.inj hc)⟩
    rw [hbook]
    exact ht

/-- **A citation leads to the line of some reference**, and in a given book to one of its own. -/
theorem exists_entry_of_resolve {text : Text} {leeway : Leeway}
    (h : (build entries titles offsets).resolve text book leeway = some t) :
    ∃ e ∈ entries, t = e.target ((offsets.lookup e.book).getD 0) ∧ ∀ b, book = some b → e.book = b := by
  rw [resolve] at h
  dsimp only at h
  split at h
  · cases h
  · obtain ⟨tier, -, h⟩ := List.exists_of_findSome?_eq_some h
    rw [matchTier] at h
    split at h
    · obtain ⟨key, -, h⟩ := List.exists_of_findSome?_eq_some h
      split at h
      · cases h
      · obtain ⟨reading, -, j, h⟩ := exists_of_matchKey h
        obtain ⟨e, he, ht, hbook⟩ := exists_entry_of_lookup_build h
        refine ⟨e, he, ht, fun b hb => hbook b ?_⟩
        rw [hb, Option.some_or]
    · cases h

end Sound

end RefIndex

end HebrewCorpus
