import HebrewCorpus.Book.Flat
import HebrewCorpus.Citation.Canonical
import HebrewCorpus.Text.Order

/-! # The reference index

Every line of the corpus is found under the canonical forms of its references. Within its own book a
line is also found without the book's title and by its address alone. Where two lines share a key,
the one that registered it first keeps it.

* **`LineTarget`**: the line that a reference leads to.
* **`RefIndex.build`**: the index of a corpus, from its references, the titles of its books and the
  numbers of their first lines.
* **`RefIndex.lookup`**: the line under a key, in one book or in the whole corpus.
* **`RefIndex.bookFor`**: the book whose title a key starts with. -/

namespace HebrewCorpus

/-- **The line that a reference leads to**: its book, its number in the corpus, and its number in
the book from 0 on. -/
structure LineTarget where
  book : Int
  line : Int
  index : Int
  deriving DecidableEq, Repr

/-- Keys with what was registered under each, in the order of registration. -/
abbrev KeyTable := List (Text × LineTarget)

/-- What the index knows of one book. -/
structure BookScope where
  /-- The canonical titles of the book, the longest first. -/
  titles : List Text
  keys : KeyTable
  /-- The greatest number of colons in a key. -/
  maxDepth : Nat
  deriving Repr

/-- **The reference index of a corpus.** -/
structure RefIndex where
  /-- The full keys of all books. -/
  corpusKeys : KeyTable
  scopes : List (Int × BookScope)
  /-- The titles of all books, the longest first, each with the book that declared it first. -/
  titleBooks : List (Text × Int)
  maxDepth : Nat
  deriving Repr

/-- How many levels an address under a key can have, less one. -/
def keyDepth (key : Text) : Nat := key.count ':'

/-! ### Titles -/

/-- Longer texts come first, and of two of one length the smaller. -/
def comesBefore (s t : Text) : Bool := t.length < s.length || (s.length == t.length && Text.le s t)

/-- The canonical forms of a book's titles, each once. -/
def titleKeys (titles : List Text) : List Text :=
  distinctKeys (titles.flatMap fun t => [canonical t, (titleKey? t).getD []])

/-- The canonical titles of a book, the longest first. -/
def orderedTitles (titles : List Text) : List Text := sortOrdered comesBefore (titleKeys titles)

/-- Titles of books in the order of declaration, each with the first book that has it. -/
def firstBooks (declared : List (Text × Int)) : List (Text × Int) :=
  declared.foldl (fun seen d => if (seen.lookup d.1).isSome then seen else seen ++ [d]) []

/-! ### Registration -/

/-- The line that a reference entry stands for; `offset` is the number of the book's first line. -/
def RefEntry.target (offset : Int) (e : RefEntry) : LineTarget :=
  ⟨e.book, offset + (e.lineIndex - 1), e.lineIndex - 1⟩

/-- The canonical forms of an entry's two references that are not empty. -/
def RefEntry.fullKeys (e : RefEntry) : List Text :=
  [canonical e.ref, canonical e.heRef].filter (!·.isEmpty)

/-- The keys of a reference within its book: in full, without the title, and the address alone. -/
def scopeKeysOf (titles : List Text) (ref : Text) : List Text :=
  let key := canonical ref
  if key.isEmpty then []
  else [key, stripAlias key titles, canonicalTail ref].filter (!·.isEmpty)

/-- The keys of an entry within its book. -/
def RefEntry.scopeKeys (titles : List Text) (e : RefEntry) : List Text :=
  scopeKeysOf titles e.ref ++ scopeKeysOf titles e.heRef

namespace BookScope

/-- The scope of a book with the given titles from its reference entries. -/
def build (titles : List Text) (offset : Int) (entries : List RefEntry) : BookScope :=
  let keys := entries.flatMap fun e => (e.scopeKeys titles).map (·, e.target offset)
  ⟨titles, keys, (keys.map fun k => keyDepth k.1).foldl max 0⟩

end BookScope

/-- Numbers in the order of their first occurrence, each once. -/
def distinctBooks (books : List Int) : List Int :=
  books.foldl (fun seen b => if seen.elem b then seen else seen ++ [b]) []

namespace RefIndex

/-- **The index of a corpus**: its reference entries in the order of their lines, the titles of its
books, and the numbers of their first lines, 0 where none is given. -/
def build (entries : List RefEntry) (titles : List (Int × List Text)) (offsets : List (Int × Int)) :
    RefIndex :=
  let offsetOf (book : Int) : Int := (offsets.lookup book).getD 0
  let titlesOf (book : Int) : List Text := orderedTitles ((titles.lookup book).getD [])
  let books := distinctBooks (titles.map (·.1) ++ entries.map (·.book))
  let scopes := books.map fun b =>
    (b, BookScope.build (titlesOf b) (offsetOf b) (entries.filter (·.book = b)))
  let declared := titles.flatMap fun (b, ts) => (orderedTitles ts).map (·, b)
  { corpusKeys := entries.flatMap fun e => e.fullKeys.map (·, e.target (offsetOf e.book))
    scopes
    titleBooks := sortOrdered (fun a b => comesBefore a.1 b.1) (firstBooks declared)
    maxDepth := (scopes.map (·.2.maxDepth)).foldl max 0 }

/-- **The line under a key**: in the scope of a book, or among the full keys of the corpus. -/
def lookup (index : RefIndex) (key : Text) : (book : Option Int) → Option LineTarget
  | none => index.corpusKeys.lookup key
  | some book => (index.scopes.lookup book).bind (·.keys.lookup key)

/-- Whether a key is a title or starts with it and a space. -/
def startsWithTitle (key title : Text) : Bool :=
  key = title || (Text.dropLead? (title ++ [' ']) key).isSome

/-- **The book whose title a key starts with**; of several titles the longest counts. -/
def bookFor (index : RefIndex) (key : Text) : Option Int :=
  (index.titleBooks.find? fun t => startsWithTitle key t.1).map (·.2)

/-- The canonical titles of a book, the longest first. -/
def titlesOf (index : RefIndex) (book : Int) : List Text :=
  ((index.scopes.lookup book).map (·.titles)).getD []

/-- The greatest number of colons among the keys of a book, or of the whole corpus. -/
def depthOf (index : RefIndex) : (book : Option Int) → Nat
  | none => index.maxDepth
  | some book => ((index.scopes.lookup book).map (·.maxDepth)).getD 0

/-- The number of different full keys. -/
def size (index : RefIndex) : Nat := (distinctKeys (index.corpusKeys.map (·.1))).length

end RefIndex

end HebrewCorpus
