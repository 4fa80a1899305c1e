import HebrewCorpus.Numeral.Gematria

/-! # Page and side addresses

A paginated work is addressed by a leaf (daf) and its side. Positions count the sides from 1:
1 is the first side of leaf 1, 2 its second side, 3 the first side of leaf 2.

* **`DafAddress`**: a leaf and a side, with its position and its two labels.
* **`DafAddress.ofIndex`**: the address of the side with a 0-based index.
* **`DafAddress.ofPosition`**: the address at a position, refused below 1.
* **`DafAddress.readPosition`**: the position of an address written like `2a` or `17 b`. -/

namespace HebrewCorpus

/-- **A leaf of a paginated work and a side of it.** The side is kept as it was written; a lone
`a` is the first side and anything else the second. -/
structure DafAddress where
  page : Int
  side : Text
  deriving DecidableEq, Repr

namespace DafAddress

/-- Whether the address is the first side of its leaf. -/
def isFirstSide (d : DafAddress) : Bool := d.side = ['a']

/-- The position of the address, counted from 1. -/
def position (d : DafAddress) : Int := (d.page - 1) * 2 + if d.isFirstSide then 1 else 2

/-- The Hebrew label: the Hebrew numeral of the leaf, then a point or a colon for the side. -/
def hebrew (d : DafAddress) : Text := gematria d.page ++ [if d.isFirstSide then '.' else ':']

/-- The English label, such as `45b`. -/
def english (d : DafAddress) : Text := decimal d.page ++ d.side

/-- The address of the side with 0-based index `i`. -/
def ofIndex (i : Nat) : DafAddress :=
  ⟨(i / 2 + 1 : Nat), if i % 2 = 0 then ['a'] else ['b']⟩

/-- The address at a position. -/
def ofPosition (position : Int) : Except NumeralFault DafAddress :=
  if position < 1 then .error (.positionBelowOne position) else .ok (ofIndex (position - 1).toNat)

/-- The side letter after the digits of an address: the first character after white space, when it
is `a` or `b` in either case. Without one the address means the first side. -/
def readSide (s : Text) : Text :=
  match Text.trimStart s with
  | 'b' :: _ | 'B' :: _ => ['b']
  | _ => ['a']

/-- **The position of a written address**: its first run of digits is the leaf, and the side may
follow. A text without digits, or with leaf 0, has none. -/
def readPosition (address : Text) : Except NumeralFault (Option Int) :=
  let rest := (Text.trim address).dropWhile (!Text.isDecimalDigit ·)
  if rest.isEmpty then .ok none
  else do
    let page ← readDigits (rest.takeWhile Text.isDecimalDigit)
    if page < 1 then return none
    return some (position ⟨page, readSide (rest.dropWhile Text.isDecimalDigit)⟩)

/-- The side of index `i` stands at position `i + 1`. -/
theorem position_ofIndex (i : Nat) : (ofIndex i).position = i + 1 := by
  unfold position isFirstSide ofIndex
  by_cases h : i % 2 = 0 <;> simp [h] <;> omega

/-- **Every position from 1 on has the address that stands there.** -/
theorem ofPosition_natCast_add_one (i : Nat) : ofPosition (i + 1) = .ok (ofIndex i) := by
  unfold ofPosition
  rw [if_neg (by omega)]
  congr 2
  omega

end DafAddress

end HebrewCorpus
