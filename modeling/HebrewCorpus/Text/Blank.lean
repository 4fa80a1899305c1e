import HebrewCorpus.Text.Basic

/-! # Blanks and words

White space is the Unicode class: the ASCII blanks and information separators, the no-break and
typographic spaces, and the line and paragraph separators. Zero-width characters, direction marks
and the byte order mark are no white space.

* **`Text.isBlankChar`**, **`Text.isBlank`**: a white-space character, a text of nothing else.
* **`Text.trim`**: the text without the white space at its two ends.
* **`Text.words`**: the maximal runs without white space; **`Text.squeeze`** writes them again with
  one space between neighbours. -/

namespace HebrewCorpus.Text

/-- The ranges of the white-space characters. -/
def blankRanges : List (Nat × Nat) :=
  [(0x9, 0xd), (0x1c, 0x20), (0x85, 0x85), (0xa0, 0xa0), (0x1680, 0x1680), (0x2000, 0x200a),
    (0x2028, 0x2029), (0x202f, 0x202f), (0x205f, 0x205f), (0x3000, 0x3000)]

/-- A white-space character. -/
def isBlankChar (c : Char) : Bool := inRanges blankRanges c.toNat

/-- A text with nothing but white space. -/
def isBlank (s : Text) : Bool := s.all isBlankChar

@[simp] theorem isBlank_nil : isBlank [] = true := rfl

/-- The text without the white space at its start. -/
def trimStart (s : Text) : Text := s.dropWhile isBlankChar

/-- The text without the white space at its end. -/
def trimEnd (s : Text) : Text := (s.reverse.dropWhile isBlankChar).reverse

/-- The text without the white space at its two ends. -/
def trim (s : Text) : Text := trimEnd (trimStart s)

/-- The text without the characters of a class at its two ends. -/
def trimWhere (p : Char → Bool) (s : Text) : Text :=
  ((s.dropWhile p).reverse.dropWhile p).reverse

/-- The maximal runs of characters that are no white space. -/
def words (s : Text) : List Text := (s.splitOnP isBlankChar).filter (· ≠ [])

/-- The words of a text with one space between neighbours. -/
def squeeze (s : Text) : Text := joinWith [' '] (words s)

@[simp] theorem words_nil : words [] = [] := by decide

/-- No word is empty. -/
theorem ne_nil_of_mem_words {s w : Text} (h : w ∈ words s) : w ≠ [] := by
  simpa using (List.mem_filter.1 h).2

end HebrewCorpus.Text
