import HebrewCorpus.Proofs.Citation.Lookup

/-! # Citations within one book

A citation that is resolved within a given book is looked up among the keys of that book alone, with
its titles and its depth. What the index holds of other books plays no part.

* **`RefIndex.scope`**: what an index holds of a book; `resolve_of_scope_eq` says that citations
  within the book depend on nothing else.
* **`RefIndex.Agree`**: two indices that hold the same of a book.
* **`RefIndex.agree_build_append`**: references and titles of other books, added to a corpus, change
  nothing of what its index holds of a book.
* **`RefIndex.resolve_of_sameBook`**: two corpora that have a book in common, whatever else is in
  them, resolve citations within it alike, and to its own lines. -/

namespace HebrewCorpus

namespace RefIndex

/-- **What an index holds of a book**, which is nothing of a book that it does not know. -/
def scope (index : RefIndex) (book : Int) : BookScope :=
  (index.scopes.lookup book).getD ⟨[], [], 0⟩

section Scope

variable {book : Int} {index index' : RefIndex}

/-- Within a book keys are looked up in its scope. -/
theorem lookup_eq_scope (index : RefIndex) (key : Text) (book : Int) :
    index.lookup key (some book) = (index.scope book).keys.lookup key := by
  rw [lookup, scope]
  cases index.scopes.lookup book <;> rfl

/-- The titles of a book stand in its scope. -/
theorem titlesOf_eq_scope (index : RefIndex) (book : Int) :
    index.titlesOf book = (index.scope book).titles := by
  rw [titlesOf, scope]
  cases index.scopes.lookup book <;> rfl

/-- The depth of a book stands in its scope. -/
theorem depthOf_eq_scope (index : RefIndex) (book : Int) :
    index.depthOf (some book) = (index.scope book).maxDepth := by
  rw [depthOf, scope]
  cases index.scopes.lookup book <;> rfl

/-- **Indices with the same lines under their keys** have the same under a key and its readings. -/
theorem matchKey_congr {book : Option Int}
    (h : ∀ key, index.lookup key book = index'.lookup key book) (key : Text) (depth : Int) :
    index.matchKey key book depth = index'.matchKey key book depth := by
  have hlookup : (index.lookup · book) = (index'.lookup · book) := funext h
  rw [matchKey, matchKey, hlookup]

/-- Where they are also of one depth, every tier leads to the same line. -/
theorem matchTier_congr {book : Option Int}
    (hlookup : ∀ key, index.lookup key book = index'.lookup key book)
    (hdepth : index.depthOf book = index'.depthOf book) (q : KeyQuery) (tier : Tier) :
    index.matchTier q book tier = index'.matchTier q book tier := by
  rw [matchTier, matchTier, hdepth]
  simp only [matchKey_congr hlookup]

/-- **A citation within a book depends on the scope of the book alone.** -/
theorem resolve_of_scope_eq (h : index.scope book = index'.scope book) (text : Text)
    (leeway : Leeway) :
    index.resolve text (some book) leeway = index'.resolve text (some book) leeway := by
  rw [resolve, resolve]
  by_cases hempty : (canonical text).isEmpty = true
  · rw [if_pos hempty, if_pos hempty]
  · have hlookup (key : Text) : index.lookup key (some book) = index'.lookup key (some book) := by
      rw [lookup_eq_scope, lookup_eq_scope, h]
    have hdepth : index.depthOf (some book) = index'.depthOf (some book) := by
      rw [depthOf_eq_scope, depthOf_eq_scope, h]
    rw [if_neg hempty, if_neg hempty]
    simp only [Option.some_or, Option.map_some, Option.getD_some]
    rw [titlesOf_eq_scope, titlesOf_eq_scope, h]
    congr 1
    funext tier
    exact matchTier_congr hlookup hdepth _ tier

end Scope

/-- **Two indices that hold the same of a book.** -/
def Agree (book : Int) (index index' : RefIndex) : Prop :=
  index.scopes.lookup book = index'.scopes.lookup book

/-- **A citation within the book leads to the same line.** -/
theorem resolve_of_agree {book : Int} {index index' : RefIndex} (h : Agree book index index')
    (text : Text) (leeway : Leeway) :
    index.resolve text (some book) leeway = index'.resolve text (some book) leeway := by
  have hscope : index.scope book = index'.scope book := by rw [scope, scope, h]
  exact resolve_of_scope_eq hscope text leeway

/-! ### More books -/

section Append

variable {entries entries' : List RefEntry} {titles titles' : List (Int × List Text)}
variable {offsets offsets' : List (Int × Int)} {book : Int}

/-- What stands under a key that is in a list of pairs is not changed by pairs behind them. -/
theorem lookup_append_of_mem_map {β : Type} {t u : List (Int × β)} {k : Int}
    (h : k ∈ t.map (·.1)) : (t ++ u).lookup k = t.lookup k := by
  obtain ⟨p, hp, rfl⟩ := List.mem_map.1 h
  have hsome : (t.lookup p.1).isSome := List.lookup_isSome_iff.2 ⟨p, hp, beq_self_eq_true p.1⟩
  rw [List.lookup_append, Option.or_of_isSome hsome]

/-- The scope of a book is not changed by references and titles of other books. -/
theorem scopeOf_append (htitles : book ∈ titles.map (·.1)) (hoffsets : book ∈ offsets.map (·.1))
    (hentries : ∀ e ∈ entries', e.book ≠ book) :
    scopeOf (entries ++ entries') (titles ++ titles') (offsets ++ offsets') book =
      scopeOf entries titles offsets book := by
  have hothers : entries'.filter (·.book = book) = [] := by
    rw [List.filter_eq_nil_iff]
    intro e he h
    exact hentries e he (of_decide_eq_true h)
  rw [scopeOf, scopeOf, lookup_append_of_mem_map htitles, lookup_append_of_mem_map hoffsets,
    List.filter_append, hothers, List.append_nil]

/-- **References and titles of other books** change nothing of what an index holds of a book. -/
theorem agree_build_append (htitles : book ∈ titles.map (·.1))
    (hoffsets : book ∈ offsets.map (·.1)) (hentries : ∀ e ∈ entries', e.book ≠ book) :
    Agree book (build (entries ++ entries') (titles ++ titles') (offsets ++ offsets'))
      (build entries titles offsets) := by
  have hfirst : book ∈ titles.map (·.1) ++ entries.map (·.book) := List.mem_append_left _ htitles
  have hall : book ∈ (titles ++ titles').map (·.1) ++ (entries ++ entries').map (·.book) := by
    rw [List.map_append, List.append_assoc]
    exact List.mem_append_left _ htitles
  rw [Agree, lookup_scopes_build, lookup_scopes_build, if_pos hall, if_pos hfirst,
    scopeOf_append htitles hoffsets hentries]

end Append

/-! ### Corpora with a book in common -/

section Common

variable {entries entries' : List RefEntry} {titles titles' : List (Int × List Text)}
variable {offsets offsets' : List (Int × Int)} {book : Int}

/-- What the index of a corpus holds of a book is made from that book alone. -/
theorem scope_build (entries : List RefEntry) (titles : List (Int × List Text))
    (offsets : List (Int × Int)) (book : Int) :
    (build entries titles offsets).scope book = scopeOf entries titles offsets book := by
  have h := getD_lookup_scopes_build entries titles offsets id ⟨[], [], 0⟩ rfl book
  rwa [Option.map_id] at h

/-- **A book is sealed off from the others.** Two corpora that have the references of a book in the
same order, its titles and the number of its first line in common resolve every citation within the
book alike, however much they differ elsewhere, and only to a line of one of its own references. -/
theorem resolve_of_sameBook
    (hentries : entries.filter (·.book = book) = entries'.filter (·.book = book))
    (htitles : (titles.lookup book).getD [] = (titles'.lookup book).getD [])
    (hoffsets : (offsets.lookup book).getD 0 = (offsets'.lookup book).getD 0) (leeway : Leeway) :
    (∀ text, (build entries titles offsets).resolve text (some book) leeway =
      (build entries' titles' offsets').resolve text (some book) leeway) ∧
    (∀ citation, (build entries titles offsets).resolveCitation citation (some book) leeway =
      (build entries' titles' offsets').resolveCitation citation (some book) leeway) ∧
    ∀ text citation t, (build entries titles offsets).resolve text (some book) leeway = some t ∨
        (build entries titles offsets).resolveCitation citation (some book) leeway = some t →
      ∃ e ∈ entries, e.book = book ∧
        t = ⟨book, (offsets.lookup book).getD 0 + e.lineIndex - 1, e.lineIndex - 1⟩ := by
  have hscope : (build entries titles offsets).scope book =
      (build entries' titles' offsets').scope book := by
    rw [scope_build, scope_build, scopeOf, scopeOf, hentries, htitles, hoffsets]
  refine ⟨fun text => resolve_of_scope_eq hscope text leeway, fun citation => ?_, ?_⟩
  · unfold resolveCitation
    split
    · exact resolve_of_scope_eq hscope _ leeway
    · rfl
  -- a citation is resolved by its text
  have hown (text : Text) (t : LineTarget)
      (ht : (build entries titles offsets).resolve text (some book) leeway = some t) :
      ∃ e ∈ entries, e.book = book ∧
        t = ⟨book, (offsets.lookup book).getD 0 + e.lineIndex - 1, e.lineIndex - 1⟩ := by
    obtain ⟨e, he, rfl, hbook⟩ := exists_entry_of_resolve ht
    have hbook : e.book = book := hbook book rfl
    refine ⟨e, he, hbook, ?_⟩
    rw [RefEntry.target, hbook, Int.add_sub_assoc]
  rintro text citation t (ht | ht)
  · exact hown text t ht
  · obtain ⟨written, ht⟩ := exists_text_of_resolveCitation ht
    exact hown written t ht

/-- Two lines of a book. -/
def sharedRefs : List RefEntry :=
  [⟨"Ruth 1:1".toList, "רות א, א".toList, 1, 7⟩, ⟨"Ruth 1:2".toList, "רות א, ב".toList, 2, 7⟩]

/-- The two lines, with deeper references of a book of the same name in front of and between them. -/
def mingledRefs : List RefEntry :=
  [⟨"Ruth 1:2".toList, [], 1, 8⟩, ⟨"Ruth 1:1".toList, "רות א, א".toList, 1, 7⟩,
    ⟨"Ruth 1:3:1:1".toList, [], 2, 8⟩, ⟨"Ruth 1:2".toList, "רות א, ב".toList, 2, 7⟩]

/-- The index of the mingled lines. -/
def mingledIndex : RefIndex :=
  build mingledRefs [(8, ["Ruth".toList]), (7, ["Ruth".toList])] [(8, 1), (7, 100)]

/-- A citation within the book leads to its second line, which in the whole corpus the other book
takes. -/
theorem resolve_of_sameBook_ruth :
    mingledIndex.resolve "Ruth 1:2".toList (some 7) ⟨true, true⟩ = some ⟨7, 101, 1⟩ ∧
      mingledIndex.resolve "Ruth 1:2".toList none ⟨true, true⟩ = some ⟨8, 1, 0⟩ := by
  have hentries : sharedRefs.filter (·.book = 7) = mingledRefs.filter (·.book = 7) := by decide
  have htitles : (List.lookup (7 : Int) [(7, ["Ruth".toList])]).getD [] =
      (List.lookup (7 : Int) [(8, ["Ruth".toList]), (7, ["Ruth".toList])]).getD [] := by decide
  have hoffsets : (List.lookup (7 : Int) [(7, (100 : Int))]).getD 0 =
      (List.lookup (7 : Int) [(8, 1), (7, 100)]).getD 0 := by decide
  obtain ⟨htext, -, -⟩ := resolve_of_sameBook hentries htitles hoffsets ⟨true, true⟩
  rw [mingledIndex, ← htext]
  exact ⟨by decide +kernel, by decide +kernel⟩

end Common

end RefIndex

end HebrewCorpus
