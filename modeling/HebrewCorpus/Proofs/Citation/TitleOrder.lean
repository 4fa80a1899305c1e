import HebrewCorpus.Proofs.Citation.LongestTitle
import HebrewCorpus.Proofs.Citation.Locality

/-! # Titles in any order

The canonical titles of a book are a set, and so are those of a corpus. Wherever they are tried one
after the other they are put in falling lengths, but nothing is said of titles of one length. All
orders that are left give the same answers.

* **`TitleOrder`**: a way of ordering titles; `TitleOrder.byText` is the one of `RefIndex.build`.
* **`TitleOrder.index`**: the index of a corpus whose titles stand in a given order.
* **`TitleOrder.resolve_index`**: two orders resolve every citation alike.
* **`TitleOrder.longest_title_counts`**: what is stripped from a key and the book that it belongs
  to, said without an order. -/

namespace HebrewCorpus

open Text

/-- A title that comes before another one is not shorter. -/
theorem length_le_of_comesBefore {s t : Text} (h : comesBefore s t = true) :
    t.length ≤ s.length := by
  simp only [comesBefore, Bool.or_eq_true, Bool.and_eq_true, decide_eq_true_eq, beq_iff_eq] at h
  omega

/-- A title that does not come before another one is not longer. -/
theorem length_le_of_comesBefore_eq_false {s t : Text} (h : comesBefore s t = false) :
    s.length ≤ t.length := by
  simp only [comesBefore, Bool.or_eq_false_iff, decide_eq_false_iff_not] at h
  omega

/-- **A way of ordering titles**: the canonical titles of each book, and the titles of all books, in
falling lengths. Titles of one length may stand in any order. -/
structure TitleOrder where
  own : (book : Int) → (titles : List Text) → List Text
  own_perm : ∀ book titles, (own book titles).Perm (titleKeys titles)
  own_falling : ∀ book titles, (own book titles).Pairwise fun s t => t.length ≤ s.length
  all : (declared : List (Text × Int)) → List (Text × Int)
  all_perm : ∀ declared, (all declared).Perm declared
  all_falling : ∀ declared, (all declared).Pairwise fun s t => t.1.length ≤ s.1.length

/-- The canonical titles of all books. -/
def allTitles (titles : List (Int × List Text)) : List Text :=
  titles.flatMap fun b => titleKeys b.2

/-- The keys of a tier depend on the titles through what they strip from keys. -/
theorem Tier.keys_congr {titles titles' : List Text}
    (h : ∀ key, stripAlias key titles = stripAlias key titles') (key : Text) (tail : Bool)
    (tier : Tier) : tier.keys ⟨key, titles, tail⟩ = tier.keys ⟨key, titles', tail⟩ := by
  have hdirect : KeyQuery.directKeys ⟨key, titles, tail⟩ =
      KeyQuery.directKeys ⟨key, titles', tail⟩ := by
    funext k
    simp only [KeyQuery.directKeys, h]
  have hcount : KeyQuery.countdownKeys ⟨key, titles, tail⟩ =
      KeyQuery.countdownKeys ⟨key, titles', tail⟩ := by
    funext unit n
    simp only [KeyQuery.countdownKeys, h]
  cases tier <;> simp only [Tier.keys, hdirect, hcount, h]

namespace TitleOrder

/-- **The order in which titles of one length stand by their characters.** -/
def byText : TitleOrder where
  own _ := orderedTitles
  own_perm _ _ := sortOrdered_perm comesBefore _
  own_falling _ _ :=
    pairwise_sortOrdered (r := fun s t : Text => t.length ≤ s.length)
      (fun _ _ _ h h' => Nat.le_trans h' h) (fun _ _ => length_le_of_comesBefore)
      (fun _ _ => length_le_of_comesBefore_eq_false) _
  all := sortOrdered fun a b => comesBefore a.1 b.1
  all_perm _ := sortOrdered_perm _ _
  all_falling _ :=
    pairwise_sortOrdered (r := fun s t : Text × Int => t.1.length ≤ s.1.length)
      (fun _ _ _ h h' => Nat.le_trans h' h) (fun _ _ => length_le_of_comesBefore)
      (fun _ _ => length_le_of_comesBefore_eq_false) _

/-- **The index of a corpus whose titles stand in a given order.** -/
def index (o : TitleOrder) (entries : List RefEntry) (titles : List (Int × List Text))
    (offsets : List (Int × Int)) : RefIndex :=
  let offsetOf (book : Int) : Int := (offsets.lookup book).getD 0
  let titlesOf (book : Int) : List Text := o.own book ((titles.lookup book).getD [])
  let books := distinctBooks (titles.map (·.1) ++ entries.map (·.book))
  let scopes := books.map fun b =>
    (b, BookScope.build (titlesOf b) (offsetOf b) (entries.filter (·.book = b)))
  let declared := titles.flatMap fun (b, ts) => (o.own b ts).map (·, b)
  { corpusKeys := entries.flatMap fun e => e.fullKeys.map (·, e.target (offsetOf e.book))
    scopes
    titleBooks := o.all (firstBooks declared)
    maxDepth := (scopes.map (·.2.maxDepth)).foldl max 0 }

/-- The index of a corpus is built with its titles in one of these orders. -/
theorem index_byText : byText.index = RefIndex.build := rfl

/-- **A book's titles strip a key** as their set says, in every order. -/
theorem stripped_own (o : TitleOrder) (book : Int) (titles : List Text) (key : Text) :
    Stripped (titleKeys titles) key (stripAlias key (o.own book titles)) := by
  have hmem (t : Text) : t ∈ o.own book titles ↔ t ∈ titleKeys titles :=
    (o.own_perm book titles).mem_iff
  have hne : ∀ t ∈ o.own book titles, t ≠ [] :=
    fun t ht => (mem_distinctKeys.1 ((hmem t).1 ht)).2
  exact (stripped_stripAlias hne (o.own_falling book titles) key).congr hmem

/-- Two orders of a book's titles strip every key alike. -/
theorem stripAlias_own (o o' : TitleOrder) (book : Int) (titles : List Text) (key : Text) :
    stripAlias key (o.own book titles) = stripAlias key (o'.own book titles) :=
  (o.stripped_own book titles key).unique (o'.stripped_own book titles key)

section Index

variable (o o' : TitleOrder) (entries : List RefEntry) (titles : List (Int × List Text))
variable (offsets : List (Int × Int))

/-- A book without titles has none in any order. -/
theorem own_nil (book : Int) : o.own book [] = [] :=
  (o.own_perm book []).eq_nil

/-- **The scope of a book** under an order of its titles. -/
theorem scope_index (book : Int) :
    (o.index entries titles offsets).scope book =
      .build (o.own book ((titles.lookup book).getD [])) ((offsets.lookup book).getD 0)
        (entries.filter (·.book = book)) := by
  have h := lookup_map_self (fun b => BookScope.build (o.own b ((titles.lookup b).getD []))
    ((offsets.lookup b).getD 0) (entries.filter (·.book = b)))
    (distinctBooks (titles.map (·.1) ++ entries.map (·.book))) book
  simp only [mem_distinctBooks] at h
  rw [RefIndex.scope]
  show (List.lookup book (List.map _ _)).getD _ = _
  rw [h]
  split
  · rfl
  · next hb =>
    rw [List.mem_append, not_or] at hb
    have hlookup : titles.lookup book = none :=
      List.lookup_eq_none_iff.2 fun p hp => bne_iff_ne.2 fun h => hb.1 (h ▸ List.mem_map_of_mem hp)
    have hentries : entries.filter (·.book = book) = [] :=
      List.filter_eq_nil_iff.2 fun e he h => hb.2 (of_decide_eq_true h ▸ List.mem_map_of_mem he)
    rw [hlookup, hentries]
    show _ = BookScope.build (o.own book []) _ []
    rw [own_nil]
    rfl

/-- The titles of a book stand in its order. -/
theorem titlesOf_index (book : Int) :
    (o.index entries titles offsets).titlesOf book = o.own book ((titles.lookup book).getD []) := by
  rw [RefIndex.titlesOf_eq_scope, scope_index]
  rfl

/-- The lines of a scope are under the same keys in every order of its book's titles. -/
theorem scopeKeysOf_own (book : Int) (own : List Text) (ref : Text) :
    scopeKeysOf (o.own book own) ref = scopeKeysOf (o'.own book own) ref := by
  rw [scopeKeysOf, scopeKeysOf, stripAlias_own o o' book own]

/-- **A scope differs in the order of its titles only.** -/
theorem build_own (book offset : Int) (own : List Text) (entries : List RefEntry) :
    BookScope.build (o.own book own) offset entries =
      { BookScope.build (o'.own book own) offset entries with titles := o.own book own } := by
  simp only [BookScope.build, RefEntry.scopeKeys, scopeKeysOf_own o o' book own]

/-- **Every key leads to the same line** in every order of the titles. -/
theorem lookup_index (key : Text) (book : Option Int) :
    (o.index entries titles offsets).lookup key book =
      (o'.index entries titles offsets).lookup key book := by
  cases book with
  | none => rfl
  | some b =>
    rw [RefIndex.lookup_eq_scope, RefIndex.lookup_eq_scope, scope_index, scope_index,
      build_own o o']

/-- Two orders give an index of one depth. -/
theorem depthOf_index (book : Option Int) :
    (o.index entries titles offsets).depthOf book =
      (o'.index entries titles offsets).depthOf book := by
  cases book with
  | none =>
    simp only [RefIndex.depthOf, index, build_own o o', List.map_map, Function.comp_def]
  | some b =>
    rw [RefIndex.depthOf_eq_scope, RefIndex.depthOf_eq_scope, scope_index, scope_index,
      build_own o o']

/-- The titles of all books are those that any order has. -/
theorem mem_declared {title : Text} :
    title ∈ (titles.flatMap fun b => (o.own b.1 b.2).map (·, b.1)).map (·.1) ↔
      title ∈ allTitles titles := by
  simp [allTitles, (o.own_perm _ _).mem_iff]

/-- The titles of the corpus are those of its books, each once. -/
theorem mem_titleBooks_index {title : Text} :
    title ∈ (o.index entries titles offsets).titleBooks.map (·.1) ↔ title ∈ allTitles titles := by
  obtain ⟨hfrom, hall⟩ :=
    firstBooks_spec (titles.flatMap fun b => (o.own b.1 b.2).map (·, b.1))
  rw [← mem_declared o titles]
  constructor
  · intro h
    obtain ⟨d, hd, rfl⟩ := List.mem_map.1 h
    exact List.mem_map_of_mem (hfrom d ((o.all_perm _).mem_iff.1 hd))
  · intro h
    obtain ⟨d, hd, rfl⟩ := List.mem_map.1 h
    obtain ⟨book, hbook⟩ := hall d hd
    exact List.mem_map.2 ⟨(d.1, book), (o.all_perm _).mem_iff.2 hbook, rfl⟩

/-- **The titles of a corpus strip a key** as their set says, in every order. -/
theorem stripped_titleBooks_index (key : Text) :
    Stripped (allTitles titles) key
      (stripAlias key ((o.index entries titles offsets).titleBooks.map (·.1))) := by
  have hmem (t : Text) : t ∈ (o.index entries titles offsets).titleBooks.map (·.1) ↔
      t ∈ allTitles titles := mem_titleBooks_index o entries titles offsets
  have hne : ∀ t ∈ (o.index entries titles offsets).titleBooks.map (·.1), t ≠ [] := by
    intro t ht
    obtain ⟨b, -, hkey⟩ := List.mem_flatMap.1 ((hmem t).1 ht)
    exact (mem_distinctKeys.1 hkey).2
  have hfalling : ((o.index entries titles offsets).titleBooks.map (·.1)).Pairwise
      fun s t => t.length ≤ s.length := List.pairwise_map.2 (o.all_falling _)
  exact (stripped_stripAlias hne hfalling key).congr hmem

/-- **The book of a key is the first one that declares the longest title** that the key names. -/
theorem bookFor_index_of_longest {key title : Text}
    (h : Longest (allTitles titles) (NamesTitle key) title) :
    (o.index entries titles offsets).bookFor key =
      (titles.find? fun b => title ∈ titleKeys b.2).map (·.1) := by
  have hdeclared := h.congr fun _ => (mem_declared o titles).symm
  refine (find?_of_longest (o.all_perm _) (o.all_falling _) hdeclared).trans ?_
  rw [lookup_flatMap_eq_find?]
  simp only [(o.own_perm _ _).mem_iff]

/-- **A key belongs to no book exactly when it names no title.** -/
theorem bookFor_index_eq_none_iff {key : Text} :
    (o.index entries titles offsets).bookFor key = none ↔
      ∀ t ∈ allTitles titles, ¬ NamesTitle key t := by
  constructor
  · intro hbook t ht hnames
    obtain ⟨title, hlongest⟩ := exists_longest ht hnames
    obtain ⟨owner, howner, htitle⟩ := List.mem_flatMap.1 hlongest.mem
    rw [bookFor_index_of_longest o entries titles offsets hlongest, Option.map_eq_none_iff,
      List.find?_eq_none] at hbook
    exact hbook owner howner (decide_eq_true htitle)
  · intro hnone
    rw [RefIndex.bookFor, Option.map_eq_none_iff, List.find?_eq_none]
    intro t ht hnames
    have hmem : t.1 ∈ (o.index entries titles offsets).titleBooks.map (·.1) :=
      List.mem_map_of_mem ht
    exact hnone t.1 ((mem_titleBooks_index o entries titles offsets).1 hmem)
      (startsWithTitle_iff.1 hnames)

/-- A key belongs to a book that declares the longest title which it names before all others. -/
theorem bookFor_index_eq_some_iff {key : Text} {book : Int} :
    (o.index entries titles offsets).bookFor key = some book ↔
      ∃ title, Longest (allTitles titles) (NamesTitle key) title ∧
        (titles.find? fun b => title ∈ titleKeys b.2).map (·.1) = some book := by
  constructor
  · intro hbook
    -- a key with a book names some title
    have hany : ∃ t ∈ allTitles titles, NamesTitle key t := by
      by_contra hnone
      rw [(bookFor_index_eq_none_iff o entries titles offsets).2
        fun t ht hnames => hnone ⟨t, ht, hnames⟩] at hbook
      cases hbook
    obtain ⟨t, ht, hnames⟩ := hany
    obtain ⟨title, hlongest⟩ := exists_longest ht hnames
    rw [bookFor_index_of_longest o entries titles offsets hlongest] at hbook
    exact ⟨title, hlongest, hbook⟩
  · rintro ⟨title, hlongest, hbook⟩
    rw [bookFor_index_of_longest o entries titles offsets hlongest, hbook]

/-- **Two orders find the same book** for every key. -/
theorem bookFor_index (key : Text) :
    (o.index entries titles offsets).bookFor key =
      (o'.index entries titles offsets).bookFor key := by
  apply Option.ext
  intro book
  rw [bookFor_index_eq_some_iff, bookFor_index_eq_some_iff]

/-- **Two orders resolve every citation alike.** -/
theorem resolve_index (text : Text) (book : Option Int) (leeway : RefIndex.Leeway) :
    (o.index entries titles offsets).resolve text book leeway =
      (o'.index entries titles offsets).resolve text book leeway := by
  rw [RefIndex.resolve, RefIndex.resolve]
  by_cases hempty : (canonical text).isEmpty = true
  · rw [if_pos hempty, if_pos hempty]
  · rw [if_neg hempty, if_neg hempty, bookFor_index o o']
    dsimp only
    congr 1
    funext tier
    have hlookup (key : Text) := lookup_index o o' entries titles offsets key
      (book.or ((o'.index entries titles offsets).bookFor (canonical text)))
    rw [RefIndex.matchTier_congr hlookup (depthOf_index o o' entries titles offsets _),
      RefIndex.matchTier, RefIndex.matchTier]
    cases book.or ((o'.index entries titles offsets).bookFor (canonical text)) with
    | none => rfl
    | some b =>
      have hstrip (key : Text) :
          stripAlias key ((o.index entries titles offsets).titlesOf b) =
            stripAlias key ((o'.index entries titles offsets).titlesOf b) := by
        rw [titlesOf_index, titlesOf_index, stripAlias_own o o']
      simp only [Option.map_some, Option.getD_some, Tier.keys_congr hstrip]

/-- **The longest title counts, in whatever order titles of one length stand.** A key loses the
longest of a book's titles that it goes on behind with a space, unless it is a title itself or
nothing else is in it; and in the same way the longest of all titles where those of the corpus are
stripped. It belongs to the first book that declares the longest title that it is or goes on behind
with a space, and to no book exactly when there is no such title. So any two orders strip every key
alike and find the same book for it. -/
theorem longest_title_counts (key : Text) :
    let index := o.index entries titles offsets
    (∀ book, Stripped (titleKeys ((titles.lookup book).getD [])) key
      (stripAlias key (index.titlesOf book))) ∧
    Stripped (allTitles titles) key (stripAlias key (index.titleBooks.map (·.1))) ∧
    (∀ book, index.bookFor key = some book ↔
      ∃ title, Longest (allTitles titles) (NamesTitle key) title ∧
        (titles.find? fun b => title ∈ titleKeys b.2).map (·.1) = some book) ∧
    (index.bookFor key = none ↔ ∀ t ∈ allTitles titles, ¬ NamesTitle key t) ∧
    ∀ o' : TitleOrder,
      let index' := o'.index entries titles offsets
      (∀ book, stripAlias key (index.titlesOf book) = stripAlias key (index'.titlesOf book)) ∧
      stripAlias key (index.titleBooks.map (·.1)) = stripAlias key (index'.titleBooks.map (·.1)) ∧
      index.bookFor key = index'.bookFor key := by
  intro index
  have hcorpus := stripped_titleBooks_index o entries titles offsets key
  refine ⟨?_, hcorpus, fun _ => bookFor_index_eq_some_iff o entries titles offsets,
    bookFor_index_eq_none_iff o entries titles offsets, ?_⟩
  · intro book
    rw [titlesOf_index]
    exact o.stripped_own book _ key
  · intro o' index'
    refine ⟨?_, ?_, bookFor_index o o' entries titles offsets key⟩
    · intro book
      rw [titlesOf_index, titlesOf_index, stripAlias_own o o']
    · exact hcorpus.unique (stripped_titleBooks_index o' entries titles offsets key)

end Index

end TitleOrder

/-- Of two titles at the start of a key the longer one counts, and a title must be followed by a
space. -/
example :
    let index := RefIndex.build [] [(1, ["Tur".toList]), (2, ["Tur Orach Chayim".toList])] []
    ["tur orach chayim 5", "tur 5", "turnips 5"].map (fun key => index.bookFor key.toList) =
      [some 2, some 1, none] := by
  decide +kernel

end HebrewCorpus
