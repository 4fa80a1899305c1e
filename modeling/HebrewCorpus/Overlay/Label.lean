import HebrewCorpus.Numeral.Daf
import HebrewCorpus.Overlay.Node

/-! # Labels of overlay nodes

Parts without titles are labelled by a Hebrew word and an address. Addresses count up from a start
and leave out those that are skipped.

* **`hebrewWord?`**: the Hebrew word for what parts are called.
* **`addressText`**: an address in Hebrew, as a leaf and side or as a number.
* **`OverlayItem.addressAt`**: the address of a part.
* **`OverlayItem.partLabel`**, **`OverlayItem.nodeLabel`**, **`OverlayItem.groupLabel`**: the labels
  of a part, of a node with a place of its own, and of a node that only groups others. -/

namespace HebrewCorpus

/-- The Hebrew words for divisions, by the fragment of the English name that calls for each. -/
def divisionWords : List (Text × Text) :=
  [("aliyah", "עליה"), ("daf", "דף"), ("chapter", "פרק"), ("perek", "פרק"), ("siman", "סימן"),
    ("section", "סימן"), ("klal", "כלל"), ("psalm", "מזמור"), ("day", "יום")].map
      fun (fragment, word) => (fragment.toList, word.toList)

/-- The word for divisions that are not named. -/
def defaultWord : Text := "פרק".toList

/-- The word for leaves that are not named. -/
def leafWord : Text := "דף".toList

/-- **The Hebrew word for a division.** The first fragment found in the name counts; a name without
any stands for itself, and a blank one for nothing. -/
def hebrewWord? (name : Text) : Option Text :=
  if Text.isBlank name then none
  else
    let folded := Text.lower name
    match divisionWords.find? fun w => Text.contains folded w.1 with
    | some (_, word) => some word
    | none => some name

/-- **An address in Hebrew.** -/
def addressText (value : Int) (isDaf : Bool) : Except NumeralFault Text :=
  if isDaf then (DafAddress.ofPosition value).map (·.hebrew) else .ok (gematria value)

/-- An address that is at least 1, in Hebrew. -/
def placeText (value : Int) (isDaf : Bool) : Text :=
  let index := (max value 1 - 1).toNat
  if isDaf then (DafAddress.ofIndex index).hebrew else gematria (index + 1)

/-- The number moved up past the skipped ones, which are given in ascending order. -/
def skipPast (value : Int) : List Int → Int
  | [] => value
  | s :: skipped => if s ≤ value then skipPast (value + 1) skipped else value

namespace OverlayItem

/-- The number at the start of a text. -/
def leadingNumber (s : Text) : Except NumeralFault (Option Int) :=
  let digits := (Text.trimStart s).takeWhile Text.isDecimalDigit
  if digits.isEmpty then .ok none else (readDigits digits).map fun n => some (n : Int)

/-- The position that the starting address names. -/
def startingPosition (i : OverlayItem) : Except NumeralFault (Option Int) :=
  match i.startingAddress with
  | none => .ok none
  | some s =>
    if Text.isBlank s then .ok none
    else if i.isDaf then DafAddress.readPosition s
    else leadingNumber s

/-- The number before the address of the first part. -/
def base (i : OverlayItem) : Except NumeralFault (Option Int) :=
  match i.offset with
  | some n => .ok (some n)
  | none => i.startingPosition.map (·.map (· - 1))

/-- The address of part `k` when the addresses count up from `base`, skipped ones left out. -/
def walk (i : OverlayItem) (base : Int) (k : Nat) : Int :=
  skipPast (base + 1 + k) (i.skipped.numbers.filter (base < ·))

/-- **The address of part `k`**: its own one, else the one that is due there when the addresses count
up from a start that is not below zero. -/
def addressAt (i : OverlayItem) (k : Nat) : Except NumeralFault (Option Int) :=
  match i.addresses[k]? with
  | some n => .ok (some n)
  | none => i.base.map fun b => (b.filter (0 ≤ ·)).map (i.walk · k)

/-- The word for the node's parts. -/
def word? (i : OverlayItem) : Option Text := i.childLabel.bind hebrewWord?

/-- **The label of part `k`** with an address: the word for parts and the address, or the address
alone. A part without address is labelled by its place. -/
def partLabel (i : OverlayItem) (k : Int) (value : Option Int) : Text :=
  let place := placeText (value.getD (k + 1)) i.isDaf
  match i.word? with
  | some word => word ++ ' ' :: place
  | none => place

/-- **The label of a node** at a place among its siblings: its title, else a word and the address of
its first part. -/
def nodeLabel (i : OverlayItem) (position : Int) : Except NumeralFault Text :=
  match i.shownTitle? with
  | some title => .ok title
  | none =>
    (i.addressAt 0).map fun value =>
      i.word?.getD (if i.isDaf then leafWord else defaultWord) ++
        ' ' :: placeText (value.getD (position + 1)) i.isDaf

/-- **The label of a node that only groups others**: its title, else its place. -/
def groupLabel (i : OverlayItem) (position : Int) : Text :=
  i.shownTitle?.getD (defaultWord ++ ' ' :: gematria (position + 1))

end OverlayItem

end HebrewCorpus
