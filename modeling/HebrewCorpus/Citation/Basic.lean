import HebrewCorpus.Numeral.Decimal

/-! # Citations

A citation names a book, perhaps a part of it, and the numbers of an address.

* **`Citation`**: its parts, and the text it was read from.
* **`Citation.parse`**: the citation of a free-form text such as `Beit Yosef, Orach Chayim 325:34:1`.
* **`Citation.text`**: the text of a citation, its own one where it has one; **`Citation.written`**
  gives it only when its numbers can be written. -/

namespace HebrewCorpus

/-- **A citation.** -/
structure Citation where
  book : Text
  /-- The part of the book, when one is named. -/
  division : Option Text
  /-- The numbers of the address, the outermost first. -/
  references : List Int
  /-- The text that the citation was read from. -/
  raw : Text
  /-- Whether the first number stands for a leaf and a side. -/
  isDaf : Bool
  deriving DecidableEq, Repr

namespace Citation

/-- A text, when it is not empty. -/
def nonempty? (s : Text) : Option Text := if s.isEmpty then none else some s

/-! ### Addresses -/

/-- The parts of an address that starts with a leaf and a side, such as `45b:3:1`: the digits of the
leaf, whether the side is the second, and the digits of the numbers that follow. -/
def dafParts? (token : Text) : Option (Text × Bool × List Text) :=
  let leaf := token.takeWhile Text.isDecimalDigit
  if leaf.isEmpty then none
  else
    match token.dropWhile Text.isDecimalDigit with
    | side :: rest =>
      if side = 'a' ∨ side = 'b' then
        match Text.pieces ':' rest with
        | [] :: numbers =>
          if numbers.all fun n => !n.isEmpty && n.all Text.isDecimalDigit then
            some (leaf, side = 'b', numbers)
          else none
        | _ => none
      else none
    | [] => none

/-- **The numbers of an address**, and whether the first one stands for a leaf and a side; that one
counts the sides, two to a leaf. Of a range only the start is read. An address that is no run of
numbers has none. -/
def parseReferences (token : Text) : Except NumeralFault (List Int × Bool) :=
  let token := Text.trim (Text.cutAt '-' token).1
  if token.isEmpty then .ok ([], false)
  else
    match dafParts? token with
    | some (leaf, second, numbers) => do
      let leaf ← readDigits leaf
      let numbers ← numbers.mapM readDigits
      return (((leaf * 2 + if second then 1 else 0 : Nat) : Int) :: numbers.map Int.ofNat, true)
    | none =>
      let parts := Text.pieces ':' token
      if parts.all fun p => !(Text.trim p).isEmpty && (Text.trim p).all Text.isDigitSign then do
        let numbers ← parts.mapM readNumeral
        return (numbers.map Int.ofNat, false)
      else .ok ([], false)

/-! ### Whole citations -/

/-- The text before the last space and the word after it, when there is anything before it. -/
def lastWord? (s : Text) : Option (Text × Text) :=
  match Text.cutLast? ' ' s with
  | some ([], _) | none => none
  | some cut => some cut

/-- The citation of a text with a comma, which parts the book from the rest. -/
def parseDivided (raw book rest : Text) : Except NumeralFault Citation := do
  match lastWord? rest with
  | none => return ⟨book, nonempty? rest, [], raw, false⟩
  | some (front, token) =>
    let (references, isDaf) ← parseReferences token
    if references.isEmpty then return ⟨book, some rest, [], raw, false⟩
    else return ⟨book, nonempty? (Text.trim front), references, raw, isDaf⟩

/-- The citation of a text without a comma. -/
def parseUndivided (raw text : Text) : Except NumeralFault Citation := do
  match lastWord? text with
  | none => return ⟨text, none, [], raw, false⟩
  | some (front, token) =>
    let (references, isDaf) ← parseReferences token
    if references.isEmpty then return ⟨text, none, [], raw, false⟩
    else return ⟨Text.trim front, none, references, raw, isDaf⟩

/-- **The citation of a text.** It fails only where a number cannot be read. -/
def parse (raw : Text) : Except NumeralFault Citation :=
  let text := Text.trim raw
  match Text.cutAt ',' text with
  | (book, some rest) => parseDivided raw (Text.trim book) (Text.trim rest)
  | (_, none) => parseUndivided raw text

/-- Whether the citation names a place within the book. -/
def hasAddress (c : Citation) : Bool := !c.references.isEmpty || !(c.division.getD []).isEmpty

/-- The number of sides as leaf and side. -/
def dafText (n : Int) : Text := decimal (n / 2) ++ [if n % 2 = 0 then 'a' else 'b']

/-- The numbers of the address as texts. -/
def referenceTexts (c : Citation) : List Text :=
  match c.isDaf, c.references with
  | true, n :: rest => dafText n :: rest.map decimal
  | _, references => references.map decimal

/-- The text made of a citation's parts. -/
def composed (c : Citation) : Text :=
  let named := match c.division with
    | some (d :: division) => c.book ++ ", ".toList ++ d :: division
    | _ => c.book
  if c.references.isEmpty then named
  else named ++ ' ' :: Text.joinWith [':'] c.referenceTexts

/-- **The text of a citation**: the one it was read from, or one made of its parts. -/
def text (c : Citation) : Text := if Text.isBlank c.raw then c.composed else c.raw

/-- **The text of a citation, as far as its numbers can be written.** -/
def written (c : Citation) : Except NumeralFault Text :=
  if Text.isBlank c.raw && c.references.any isTooLong then .error .tooLong else .ok c.text

/-- A citation whose numbers have few digits is written. -/
theorem written_eq_ok {c : Citation} (h : ∀ n ∈ c.references, isTooLong n = false) :
    c.written = .ok c.text := by
  have hnone : c.references.any isTooLong = false := List.any_eq_false.2 fun n hn => by simp [h n hn]
  rw [written, hnone, Bool.and_false, if_neg Bool.false_ne_true]

end Citation

end HebrewCorpus
