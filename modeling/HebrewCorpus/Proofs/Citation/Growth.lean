import HebrewCorpus.Proofs.Citation.Locality
import HebrewCorpus.Proofs.Citation.Registration

/-! # An index that grows line by line

The lines of a corpus can also be registered one after the other, as they come: each claims its keys in
the table of the corpus and in the scope of its book, and a key that is taken is not given away again.
The index that grows in this way answers every question as the one that is built from all lines at once.

* **`claimKey`**, **`BookScope.register`**, **`RefIndex.register`**: one key, one reference and one
  line more; **`RefIndex.grow`**: an index grown from all lines.
* **`RefIndex.Holds`**: an index that holds what one built from some lines holds; `Holds.register` keeps
  it so with one more line, `Holds.foldl` with all of them.
* **`RefIndex.resolve_grow`**: the grown index and the built one resolve every citation alike.
* **`formsOf`**: the forms of a reference.
* **`RefIndex.lookup_first_registered`**: a key leads to the first line that has it as one of its
  forms, and keeps its line whatever is registered later. -/

namespace HebrewCorpus

open Text

/-! ### Growing -/

/-- A table in which a line claims a key. -/
def claimKey (t : LineTarget) (table : KeyTable) (key : Text) : KeyTable :=
  if (table.lookup key).isSome then table else table ++ [(key, t)]

/-- A scope in which a line claims the keys of one of its references. -/
def BookScope.register (s : BookScope) (t : LineTarget) (ref : Text) : BookScope :=
  let own := scopeKeysOf s.titles ref
  { s with
    keys := own.foldl (claimKey t) s.keys
    maxDepth := (own.map keyDepth).foldl max s.maxDepth }

/-- The scopes of books with one of them changed, an empty one if the book had none. -/
def changeScope (book : Int) (change : BookScope → BookScope) :
    List (Int × BookScope) → List (Int × BookScope)
  | [] => [(book, change ⟨[], [], 0⟩)]
  | (b, s) :: scopes =>
    if b = book then (b, change s) :: scopes else (b, s) :: changeScope book change scopes

namespace RefIndex

/-- **An index with one more line**, which claims the keys of its two references. -/
def register (offsets : List (Int × Int)) (index : RefIndex) (e : RefEntry) : RefIndex :=
  let t := e.target ((offsets.lookup e.book).getD 0)
  { index with
    corpusKeys := e.fullKeys.foldl (claimKey t) index.corpusKeys
    scopes := changeScope e.book (fun s => (s.register t e.ref).register t e.heRef) index.scopes }

/-- An index with the greatest depth of its scopes. -/
def settled (index : RefIndex) : RefIndex :=
  { index with maxDepth := (index.scopes.map (·.2.maxDepth)).foldl max 0 }

/-- **The index grown from all lines of a corpus**, one after the other, from the titles of its books
on. -/
def grow (entries : List RefEntry) (titles : List (Int × List Text)) (offsets : List (Int × Int)) :
    RefIndex :=
  (entries.foldl (register offsets) (build [] titles offsets)).settled

end RefIndex

/-! ### One key, one reference, one scope -/

/-- **Keys that are claimed one after the other** go to the line that claims them, unless they are
taken. -/
theorem lookup_foldl_claimKey (t : LineTarget) (keys : List Text) (table : KeyTable) (key : Text) :
    (keys.foldl (claimKey t) table).lookup key =
      (table.lookup key).or ((keys.map (·, t)).lookup key) := by
  rw [← lookup_foldl_first, List.foldl_map]
  rfl

namespace BookScope

/-- **Scopes that answer alike.** -/
structure Alike (s s' : BookScope) : Prop where
  titles : s.titles = s'.titles
  keys : ∀ key, s.keys.lookup key = s'.keys.lookup key
  depth : s.maxDepth = s'.maxDepth

/-- **A scope grows with the lines of its book.** -/
theorem Alike.register {titles : List Text} {offset : Int} {before : List RefEntry} {s : BookScope}
    (h : s.Alike (build titles offset before)) (e : RefEntry) :
    ((s.register (e.target offset) e.ref).register (e.target offset) e.heRef).Alike
      (build titles offset (before ++ [e])) := by
  have hkeys : (build titles offset (before ++ [e])).keys =
      (build titles offset before).keys ++ (e.scopeKeys titles).map (·, e.target offset) := by
    rw [keys_build_append]
    simp [build]
  have htitles : s.titles = titles := h.titles
  constructor
  · exact htitles
  · intro key
    simp only [BookScope.register, htitles, lookup_foldl_claimKey, h.keys, hkeys, List.lookup_append,
      RefEntry.scopeKeys, List.map_append, Option.or_assoc]
  · have hdepth (entries : List RefEntry) : (build titles offset entries).maxDepth =
        ((build titles offset entries).keys.map fun k => keyDepth k.1).foldl max 0 := rfl
    rw [hdepth, hkeys, List.map_append, List.foldl_append, ← hdepth, ← h.depth]
    simp [BookScope.register, htitles, RefEntry.scopeKeys, List.map_map, Function.comp_def]

end BookScope

/-- A scope that is changed is found under its book, and the others as before. -/
theorem lookup_changeScope (book : Int) (change : BookScope → BookScope)
    (scopes : List (Int × BookScope)) (b : Int) :
    (changeScope book change scopes).lookup b =
      if b = book then some (change ((scopes.lookup b).getD ⟨[], [], 0⟩)) else scopes.lookup b := by
  induction scopes with
  | nil => by_cases h : b = book <;> simp [changeScope, h]
  | cons x scopes ih =>
    obtain ⟨c, s⟩ := x
    rw [changeScope]
    split
    · next hc =>
      subst hc
      by_cases hb : b = c
      · simp [hb]
      · simp [List.lookup_cons, beq_false_of_ne hb, hb]
    · next hc =>
      by_cases hb : b = c
      · subst hb
        simp [hc]
      · simp [List.lookup_cons, beq_false_of_ne hb, ih]

/-- A book that had no scope comes behind those that had one, which keep their places. -/
theorem map_fst_changeScope (book : Int) (change : BookScope → BookScope)
    (scopes : List (Int × BookScope)) :
    (changeScope book change scopes).map (·.1) =
      if (scopes.map (·.1)).elem book then scopes.map (·.1) else scopes.map (·.1) ++ [book] := by
  induction scopes with
  | nil => simp [changeScope]
  | cons x scopes ih =>
    obtain ⟨c, s⟩ := x
    rw [changeScope]
    by_cases h : c = book
    · simp [h]
    · rw [if_neg h, List.map_cons, ih, List.map_cons, List.elem_cons, beq_false_of_ne (Ne.symm h)]
      split <;> simp_all

/-- The distinct numbers of a list are all different. -/
theorem nodup_distinctBooks (bs : List Int) : (distinctBooks bs).Nodup := by
  have grow (seen : List Int) (h : seen.Nodup) :
      (bs.foldl (fun seen b => if seen.elem b then seen else seen ++ [b]) seen).Nodup := by
    induction bs generalizing seen with
    | nil => exact h
    | cons b bs ih =>
      rw [List.foldl_cons]
      apply ih
      split
      · exact h
      · next hb =>
        rw [List.elem_eq_mem, decide_eq_true_eq] at hb
        apply List.nodup_append.2
        refine ⟨h, List.pairwise_singleton .., ?_⟩
        rintro c hc d hd rfl
        rw [List.mem_singleton.1 hd] at hc
        exact hb hc
  exact grow [] .nil

/-! ### The forms of a reference -/

/-- **The forms of a reference** under which a line is found within a book with the given titles. -/
def formsOf (titles : List Text) (ref : Text) : List Text :=
  [canonical ref, stripAlias (canonical ref) titles, canonicalTail ref]

/-- Where there is no key, there is none without its title. -/
theorem stripAlias_nil (titles : List Text) : stripAlias [] titles = [] := by
  induction titles with
  | nil => rfl
  | cons title titles ih =>
    rw [stripAlias, ih]
    cases title with
    | nil => rfl
    | cons c title => rfl

/-- The keys of a reference within its book are its forms. -/
theorem mem_scopeKeysOf_iff_mem_formsOf {titles : List Text} {ref key : Text} (hkey : key ≠ []) :
    key ∈ scopeKeysOf titles ref ↔ key ∈ formsOf titles ref := by
  rw [RefEntry.mem_scopeKeysOf hkey, formsOf]
  by_cases h : canonical ref = []
  · -- an empty canonical form has no other forms
    have htail : canonicalTail ref = [] := by
      rw [canonicalTail, h]
      rfl
    rw [h, htail, stripAlias_nil]
    simp [hkey]
  · simp [h]

namespace RefIndex

/-- What different books have stands under their numbers. -/
theorem map_scopes {β : Type} (f : BookScope → β) {index : RefIndex}
    (h : (index.scopes.map (·.1)).Nodup) :
    index.scopes.map (fun s => f s.2) =
      (index.scopes.map (·.1)).map fun b => f (index.scope b) := by
  rw [List.map_map]
  apply List.map_congr_left
  intro s hs
  have hlookup : index.scopes.lookup s.1 = some s.2 := by
    simpa using lookup_map_of_nodup (·.1) (·.2) h hs
  rw [Function.comp_apply, scope, hlookup]
  rfl

section Grow

variable {entries before : List RefEntry} {titles : List (Int × List Text)}
variable {offsets : List (Int × Int)} {index : RefIndex}

/-! ### One line, and all lines -/

/-- **An index that holds what the index built from some lines holds.** -/
structure Holds (entries : List RefEntry) (titles : List (Int × List Text))
    (offsets : List (Int × Int)) (index : RefIndex) : Prop where
  corpus : ∀ key, index.corpusKeys.lookup key =
    (build entries titles offsets).corpusKeys.lookup key
  scopes : ∀ b, (index.scope b).Alike (scopeOf entries titles offsets b)
  books : index.scopes.map (·.1) = distinctBooks (titles.map (·.1) ++ entries.map (·.book))
  titleBooks : index.titleBooks = (build entries titles offsets).titleBooks

/-- A built index holds what it holds. -/
theorem holds_build (entries : List RefEntry) (titles : List (Int × List Text))
    (offsets : List (Int × Int)) : (build entries titles offsets).Holds entries titles offsets where
  corpus _ := rfl
  scopes b := by
    rw [scope_build]
    exact ⟨rfl, fun _ => rfl, rfl⟩
  books := by simp [build, Function.comp_def]
  titleBooks := rfl

/-- The scope of the line's book grows, and the others stay. -/
theorem scope_register (e : RefEntry) (b : Int) :
    (index.register offsets e).scope b =
      if b = e.book then
        let t := e.target ((offsets.lookup e.book).getD 0)
        ((index.scope b).register t e.ref).register t e.heRef
      else index.scope b := by
  rw [scope, register, lookup_changeScope]
  split <;> rfl

/-- **An index with one more line holds that line as well.** -/
theorem Holds.register (h : index.Holds before titles offsets) (e : RefEntry) :
    (index.register offsets e).Holds (before ++ [e]) titles offsets where
  corpus := by
    intro key
    have hbuild : (build (before ++ [e]) titles offsets).corpusKeys =
        (build before titles offsets).corpusKeys ++
          e.fullKeys.map (·, e.target ((offsets.lookup e.book).getD 0)) := by
      simp [build]
    rw [hbuild, List.lookup_append, ← h.corpus]
    exact lookup_foldl_claimKey _ _ _ _
  scopes := by
    intro b
    rw [scope_register]
    by_cases hb : b = e.book
    · subst hb
      rw [if_pos rfl, scopeOf, List.filter_append]
      simpa using (h.scopes e.book).register e
    · have hothers : [e].filter (·.book = b) = [] := by simp [Ne.symm hb]
      rw [if_neg hb, scopeOf, List.filter_append, hothers, List.append_nil]
      exact h.scopes b
  books := by
    rw [List.map_append, ← List.append_assoc, distinctBooks, List.foldl_append]
    show (changeScope _ _ _).map (·.1) = _
    rw [map_fst_changeScope, h.books]
    rfl
  titleBooks := h.titleBooks

/-- **All lines are registered one after the other.** -/
theorem Holds.foldl (h : index.Holds before titles offsets) (entries : List RefEntry) :
    (entries.foldl (RefIndex.register offsets) index).Holds (before ++ entries) titles offsets := by
  induction entries generalizing before index with
  | nil => rwa [List.append_nil]
  | cons e entries ih =>
    rw [List.append_cons]
    exact ih (h.register e)

/-- The books of an index that holds what a built one holds are different. -/
theorem Holds.nodup (h : index.Holds entries titles offsets) : (index.scopes.map (·.1)).Nodup := by
  rw [h.books]
  exact nodup_distinctBooks _

/-- **An index that holds what a built one holds** is as deep, once it is settled. -/
theorem Holds.maxDepth_settled (h : index.Holds entries titles offsets) :
    index.settled.maxDepth = (build entries titles offsets).maxDepth := by
  have hbuilt := holds_build entries titles offsets
  have hdepths : index.scopes.map (·.2.maxDepth) =
      (build entries titles offsets).scopes.map (·.2.maxDepth) := by
    rw [map_scopes (·.maxDepth) h.nodup, map_scopes (·.maxDepth) hbuilt.nodup, h.books, hbuilt.books]
    apply List.map_congr_left
    intro b _
    rw [scope_build, (h.scopes b).depth]
  rw [settled, hdepths]
  rfl

end Grow

/-! ### The grown index -/

section Grown

variable (entries : List RefEntry) (titles : List (Int × List Text)) (offsets : List (Int × Int))

/-- **The grown index** holds what the built one holds. -/
theorem holds_grow : (grow entries titles offsets).Holds entries titles offsets := by
  obtain ⟨corpus, scopes, books, titleBooks⟩ := (holds_build [] titles offsets).foldl entries
  exact ⟨corpus, scopes, books, titleBooks⟩

/-- **The grown index has the same line under every key** as the built one. -/
theorem lookup_grow (key : Text) (book : Option Int) :
    (grow entries titles offsets).lookup key book = (build entries titles offsets).lookup key book := by
  have h := holds_grow entries titles offsets
  cases book with
  | none => exact h.corpus key
  | some b =>
    rw [lookup_eq_scope, lookup_build]
    exact (h.scopes b).keys key

/-- The two are of one depth, in each book and in the whole corpus. -/
theorem depthOf_grow (book : Option Int) :
    (grow entries titles offsets).depthOf book = (build entries titles offsets).depthOf book := by
  cases book with
  | none => exact ((holds_build [] titles offsets).foldl entries).maxDepth_settled
  | some b =>
    rw [depthOf_eq_scope, depthOf_eq_scope, scope_build]
    exact ((holds_grow entries titles offsets).scopes b).depth

/-- They know each book by the same titles. -/
theorem titlesOf_grow (book : Int) :
    (grow entries titles offsets).titlesOf book = (build entries titles offsets).titlesOf book := by
  rw [titlesOf_eq_scope, titlesOf_eq_scope, scope_build]
  exact ((holds_grow entries titles offsets).scopes book).titles

/-- **The grown index and the built one resolve every citation alike.** -/
theorem resolve_grow (text : Text) (book : Option Int) (leeway : Leeway) :
    (grow entries titles offsets).resolve text book leeway =
      (build entries titles offsets).resolve text book leeway := by
  have hbook (key : Text) : (grow entries titles offsets).bookFor key =
      (build entries titles offsets).bookFor key := by
    rw [bookFor, (holds_grow entries titles offsets).titleBooks, bookFor]
  have htitles : (grow entries titles offsets).titlesOf = (build entries titles offsets).titlesOf := by
    funext b
    exact titlesOf_grow entries titles offsets b
  rw [resolve, resolve]
  by_cases hempty : (canonical text).isEmpty = true
  · rw [if_pos hempty, if_pos hempty]
  · rw [if_neg hempty, if_neg hempty, hbook, htitles]
    dsimp only
    congr 1
    funext tier
    apply matchTier_congr
    · intro key
      exact lookup_grow entries titles offsets key _
    · exact depthOf_grow entries titles offsets _

end Grown

/-! ### The first line with a key -/

section First

variable (entries : List RefEntry) (titles : List (Int × List Text)) (offsets : List (Int × Int))

/-- **Lines that are registered behind others** are found where those are not. -/
theorem lookup_build_append (more : List RefEntry) (key : Text) (book : Option Int) :
    (build (entries ++ more) titles offsets).lookup key book =
      ((build entries titles offsets).lookup key book).or
        ((build more titles offsets).lookup key book) := by
  cases book with
  | none =>
    show (List.flatMap _ (entries ++ more)).lookup key = _
    rw [List.flatMap_append, List.lookup_append]
    rfl
  | some b =>
    rw [lookup_build, lookup_build, lookup_build, scopeOf, List.filter_append,
      BookScope.keys_build_append, List.lookup_append]
    rfl

/-- A full key leads to the first line of the corpus that has it. -/
theorem lookup_build_none {key : Text} (hkey : key ≠ []) :
    (build entries titles offsets).lookup key none =
      (entries.find? fun e => key = canonical e.ref ∨ key = canonical e.heRef).map
        fun e => e.target ((offsets.lookup e.book).getD 0) := by
  show (entries.flatMap _).lookup key = _
  rw [lookup_flatMap_eq_find?]
  simp [RefEntry.fullKeys, hkey]

/-- **The first line with a key keeps it.** Within a book a key leads to the first line of the book
that has it as a form of one of its two references; in the whole corpus, to the first line of any
book that has it as a canonical form; and to none if there is no such line. Lines that come behind
take nothing away, and an index grown line by line has the same lines under its keys. -/
theorem lookup_first_registered {key : Text} (hkey : key ≠ []) :
    (∀ book, (build entries titles offsets).lookup key (some book) =
      (entries.find? fun e => e.book = book ∧
        (key ∈ formsOf (orderedTitles ((titles.lookup book).getD [])) e.ref ∨
          key ∈ formsOf (orderedTitles ((titles.lookup book).getD [])) e.heRef)).map fun e =>
            ⟨book, (offsets.lookup book).getD 0 + (e.lineIndex - 1), e.lineIndex - 1⟩) ∧
    (build entries titles offsets).lookup key none =
      ((entries.find? fun e => key = canonical e.ref ∨ key = canonical e.heRef).map fun e =>
        ⟨e.book, (offsets.lookup e.book).getD 0 + (e.lineIndex - 1), e.lineIndex - 1⟩) ∧
    (∀ more book t, (build entries titles offsets).lookup key book = some t →
      (build (entries ++ more) titles offsets).lookup key book = some t) ∧
    ∀ book, (grow entries titles offsets).lookup key book =
      (build entries titles offsets).lookup key book := by
  refine ⟨?_, lookup_build_none entries titles offsets hkey, ?_, lookup_grow entries titles offsets key⟩
  · intro book
    have hforms (e : RefEntry) : key ∈ e.scopeKeys (orderedTitles ((titles.lookup book).getD [])) ↔
        key ∈ formsOf (orderedTitles ((titles.lookup book).getD [])) e.ref ∨
          key ∈ formsOf (orderedTitles ((titles.lookup book).getD [])) e.heRef := by
      rw [RefEntry.scopeKeys, List.mem_append, mem_scopeKeysOf_iff_mem_formsOf hkey,
        mem_scopeKeysOf_iff_mem_formsOf hkey]
    rw [lookup_build_eq_find?, titlesOf_build]
    simp only [hforms]
    -- the line that is found is one of the book
    apply Option.map_congr
    intro e he
    have hbook : e.book = book := by
      have h := List.find?_some he
      exact (of_decide_eq_true h).1
    rw [RefEntry.target, hbook]
  · intro more book t h
    rw [lookup_build_append, h, Option.some_or]

end First

/-- The first line, which has the reference of the second one as a derived key, has it within the book;
in the whole corpus it is left to the second. -/
theorem lookup_first_registered_namesake :
    canonical "Ruth 1".toList ≠ [] ∧
      namesakeIndex.lookup (canonical "Ruth 1".toList) (some 7) = some ⟨7, 100, 0⟩ ∧
      namesakeIndex.lookup (canonical "Ruth 1".toList) none = some ⟨7, 101, 1⟩ := by
  have hkey : canonical "Ruth 1".toList ≠ [] := by decide
  obtain ⟨hbook, hcorpus, -, -⟩ := lookup_first_registered namesakeRefs
    [(7, ["Ruth".toList, "רות".toList])] [(7, 100)] hkey
  refine ⟨hkey, (hbook 7).trans ?_, hcorpus.trans ?_⟩
  · decide +kernel
  · decide +kernel

end RefIndex

end HebrewCorpus
