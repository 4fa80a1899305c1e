import HebrewCorpus.Text.Blank
import HebrewCorpus.Text.Digit
import HebrewCorpus.Text.LowerCase

/-! # Canonical keys

References are compared by a canonical form, which leaves out what writers vary: commas, quotation
marks, letter case and the width of white space.

* **`canonical`**: the canonical form of a reference, and the key under which it is looked up.
* **`titleKey?`**: the canonical form of a book title, in which underscores stand for spaces.
* **`canonicalTail`**: a key without the words before its address.
* **`stripAlias`**: a key without a book title at its start.
* **`rangeStart?`**: the start of a range.
* **`dottedVariants`**: the readings of a key written with points. -/

namespace HebrewCorpus

/-- Quotation marks: the ASCII ones, geresh and gershayim, and the typographic ones. -/
def quoteMarks : Text :=
  ['"', '\'', '\u05f3', '\u05f4', '\u2018', '\u2019', '\u201c', '\u201d', '\x60']

/-- A character that a canonical form keeps. -/
def isKept (c : Char) : Bool := !(quoteMarks.elem c || c = ',')

/-- **The canonical form of a reference**: commas and quotation marks left out, words parted by one
space, all in lower case. -/
def canonical (s : Text) : Text := Text.lower (Text.squeeze (s.filter isKept))

/-- The canonical form of a book title; blank titles have none. -/
def titleKey? (title : Text) : Option Text :=
  if Text.isBlank title then none
  else
    let key := canonical (title.map fun c => if c = '_' then ' ' else c)
    if key.isEmpty then none else some key

/-- A word that belongs to an address: one with a digit sign, a colon or a hyphen. -/
def isAddressWord (w : Text) : Bool := w.any Text.isDigitSign || w.elem ':' || w.elem '-'

/-- The words from the first address word on, in one text; without an address word the whole. -/
def addressTail (key : Text) : Text :=
  match (Text.pieces ' ' key).dropWhile (!isAddressWord ·) with
  | [] => key
  | tail => Text.joinWith [' '] tail

/-- **The canonical form without the words before the address.** -/
def canonicalTail (s : Text) : Text := addressTail (canonical s)

/-- **A key without the first of the given book titles that it starts with.** A key that is a title
itself, or that has nothing after one, is kept. -/
def stripAlias (key : Text) : (titles : List Text) → Text
  | [] => key
  | title :: titles =>
    if title.isEmpty then stripAlias key titles
    else if key = title then key
    else
      match Text.dropLead? (title ++ [' ']) key with
      | some rest =>
        let rest := Text.trimStart rest
        if rest.isEmpty then key else rest
      | none => stripAlias key titles

/-- The start of a key that is a range, when there is anything before its first hyphen. -/
def rangeStart? (key : Text) : Option Text :=
  match Text.cutAt '-' key with
  | (_, none) => none
  | (start, some _) =>
    let start := Text.trim start
    if start.isEmpty then none else some start

/-! ### Keys written with points -/

/-- Whether a text starts with a decimal digit. -/
def startsWithDigit (s : Text) : Bool := (s.head?.map Text.isDecimalDigit).getD false

/-- Every point before a digit replaced by a separator. -/
def replacePoints (separator : Char) : Text → Text
  | [] => []
  | c :: s => (if c = '.' ∧ startsWithDigit s then separator else c) :: replacePoints separator s

/-- The first point before a digit replaced by a space, the others by colons. -/
def replaceFirstPoint : Text → Text
  | [] => []
  | c :: s =>
    if c = '.' ∧ startsWithDigit s then ' ' :: replacePoints ':' s else c :: replaceFirstPoint s

/-- A list without its empty texts, each other text once, at its first place. -/
def distinctKeys (keys : List Text) : List Text :=
  keys.foldl (fun seen key => if key.isEmpty || seen.elem key then seen else seen ++ [key]) []

/-- **The readings of a key**: as it stands, and, when it holds points, with the points in the place
of spaces, of a space and colons, of colons, of spaces before numbers, and of nothing. -/
def dottedVariants (key : Text) : List Text :=
  let readings :=
    if key.elem '.' then
      [key, Text.replaceChar '.' [' '] key, replaceFirstPoint key, replacePoints ':' key,
        replacePoints ' ' key, Text.replaceChar '.' [] key]
    else [key]
  distinctKeys (readings.map Text.squeeze)

end HebrewCorpus
