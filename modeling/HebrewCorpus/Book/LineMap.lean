/-! # Lines and the entries above them

Every line of a book belongs to the last entry that starts at it or before it.

* **`mapLines`**: the entry of each line, from entries with the lines at which they start. -/

namespace HebrewCorpus

/-- An entry put among starts in ascending order, in place of one that starts at the same line. -/
def putStart (line entry : Int) : List (Int × Int) → List (Int × Int)
  | [] => [(line, entry)]
  | (l, e) :: starts =>
    if line < l then (line, entry) :: (l, e) :: starts
    else if line = l then (line, entry) :: starts
    else (l, e) :: putStart line entry starts

/-- The starts in ascending order; of two entries at one line the later one counts. -/
def startsOf (anchors : List (Int × Int)) : List (Int × Int) :=
  anchors.foldl (fun starts a => putStart a.1 a.2 starts) []

/-- The starts up to a line passed: the entry in force there, and the starts still to come. -/
def passStarts (line : Int) : (current : Option Int) → (starts : List (Int × Int)) →
    Option Int × List (Int × Int)
  | current, [] => (current, [])
  | current, (l, e) :: starts =>
    if l ≤ line then passStarts line (some e) starts else (current, (l, e) :: starts)

/-- The entries of `count` lines from `line` on, with an entry in force and the starts to come. -/
def sweepLines (firstId : Int) : (count : Nat) → (line : Int) → (current : Option Int) →
    (starts : List (Int × Int)) → List (Int × Int)
  | 0, _, _, _ => []
  | count + 1, line, current, starts =>
    let (current, starts) := passStarts line current starts
    let rest := sweepLines firstId count (line + 1) current starts
    match current with
    | some entry => (firstId + line, entry) :: rest
    | none => rest

/-- **The entry of each line** as pairs of a line's number in the corpus and an entry; lines before
the first start have none. -/
def mapLines (anchors : List (Int × Int)) (firstId total : Int) : List (Int × Int) :=
  sweepLines firstId total.toNat 0 none (startsOf anchors)

end HebrewCorpus
