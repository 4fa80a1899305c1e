import HebrewCorpus.Book.Content

/-! # Flat books

A flat book is the sequence of what flattening emits, with every line numbered by the lines before
it. Lines, headings and references are three views of that one sequence.

* **`RefPath`**: the titles and addresses that lead to a place, and the two references made of them.
* **`Emission`**: a heading, a line, or a part of the content that had to be left out.
* **`FlatBook`**, **`FlatBook.ofEmissions`**: the numbered lines, headings and references. -/

namespace HebrewCorpus

/-- **A line of a book.** Its number within the book counts from 0; its own number in the corpus is
given when the book is imported. -/
structure Line where
  id : Option Int
  book : Int
  index : Int
  content : Text
  ref : Option Text
  heRef : Option Text
  deriving DecidableEq, Repr

/-- **A heading**: its level, the book's own title having level 0, and the number of lines before
it. -/
structure Heading where
  title : Text
  level : Int
  lineIndex : Int
  deriving DecidableEq, Repr

/-- **A reference to a line**, in both languages. Here lines are counted from 1. -/
structure RefEntry where
  ref : Text
  heRef : Text
  lineIndex : Int
  book : Int
  deriving DecidableEq, Repr

/-- **The way to a place in a book**: titles, the book's own one first, then addresses. -/
structure RefPath where
  titles : List Text
  heTitles : List Text
  addresses : List Text
  heAddresses : List Text
  deriving DecidableEq, Repr

namespace RefPath

/-- The way to the start of a book. -/
def root (title heTitle : Text) : RefPath := ⟨[title], [heTitle], [], []⟩

/-- One title further; without a Hebrew title the English one stands for both. -/
def withTitle (p : RefPath) (title heTitle : Text) : RefPath :=
  { p with
    titles := p.titles ++ [title]
    heTitles := p.heTitles ++ [if heTitle.isEmpty then title else heTitle] }

/-- One address further. -/
def withAddress (p : RefPath) (labels : Labels) : RefPath :=
  { p with
    addresses := p.addresses ++ [labels.english]
    heAddresses := p.heAddresses ++ [labels.hebrew] }

/-- Titles with commas between them, then, if there are any, addresses with their separator. -/
def phrase (separator : Text) (titles addresses : List Text) : Text :=
  Text.joinWith ", ".toList titles ++
    if addresses.isEmpty then [] else ' ' :: Text.joinWith separator addresses

/-- The English reference, such as `Genesis 1:1`. -/
def ref (p : RefPath) : Text := phrase [':'] p.titles p.addresses

/-- The Hebrew reference. -/
def heRef (p : RefPath) : Text := phrase ", ".toList p.heTitles p.heAddresses

end RefPath

/-- **What flattening emits**, in the order of the content. -/
inductive Emission
  | heading (title : Text) (level : Nat)
  | line (content : Text) (path : RefPath)
  /-- A part of the content without the shape that its schema asks for; it is left out. -/
  | mismatch
  deriving DecidableEq, Repr

/-- **A flattened book.** -/
structure FlatBook where
  book : Int
  titleEn : Text
  titleHe : Text
  lines : List Line
  headings : List Heading
  refs : List RefEntry
  mismatches : Nat
  deriving DecidableEq, Repr

namespace FlatBook

/-- The lines of a sequence, the first of which has number `n`. -/
def linesFrom (book : Int) (n : Nat) : List Emission → List Line
  | [] => []
  | .line content path :: es =>
    ⟨none, book, n, content, some path.ref, some path.heRef⟩ :: linesFrom book (n + 1) es
  | _ :: es => linesFrom book n es

/-- The headings of a sequence with `n` lines before it. -/
def headingsFrom (n : Nat) : List Emission → List Heading
  | [] => []
  | .heading title level :: es => ⟨title, level, n⟩ :: headingsFrom n es
  | .line _ _ :: es => headingsFrom (n + 1) es
  | .mismatch :: es => headingsFrom n es

/-- The references of a sequence with `n` lines before it. -/
def refsFrom (book : Int) (n : Nat) : List Emission → List RefEntry
  | [] => []
  | .line _ path :: es => ⟨path.ref, path.heRef, n + 1, book⟩ :: refsFrom book (n + 1) es
  | _ :: es => refsFrom book n es

/-- How many parts of the content were left out. -/
def mismatchCount (es : List Emission) : Nat := es.count .mismatch

/-- **The flat book of a sequence.** -/
def ofEmissions (book : Int) (titleEn titleHe : Text) (es : List Emission) : FlatBook :=
  ⟨book, titleEn, titleHe, linesFrom book 0 es, headingsFrom 0 es, refsFrom book 0 es,
    mismatchCount es⟩

end FlatBook

end HebrewCorpus
