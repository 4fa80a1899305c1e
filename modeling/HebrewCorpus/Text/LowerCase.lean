import HebrewCorpus.Text.LowerCase.Table
import HebrewCorpus.Text.Basic

/-! # Lower case

Lower-casing follows the full Unicode rule: a letter becomes its lower-case form, the dotted capital
I becomes an `i` and a combining dot, and a capital sigma at the end of a word becomes the final
sigma.

* **`Text.lowerChar`**: the lower-case form of one character, whatever stands around it.
* **`Text.lower`**: the lower-case form of a text. -/

namespace HebrewCorpus.Text

/-- The shift of a code point to its lower-case form, from runs in ascending order. -/
def caseShift : (runs : List CaseRun) → (code : Nat) → Int
  | [], _ => 0
  | run :: runs, code =>
    if code < run.first then 0
    else if code ≤ run.last then
      if (code - run.first) % run.step = 0 then run.shift else caseShift runs code
    else caseShift runs code

/-- The lower-case form of a character that has one of one character, else the character itself.
No script between Armenian and Georgian, Hebrew and Arabic among them, has letter case. -/
def lowerLetter (c : Char) : Char :=
  if 0x556 < c.toNat ∧ c.toNat < 0x10a0 then c
  else
    match caseShift lowerRuns c.toNat with
    | 0 => c
    | shift => Char.ofNat (c.toNat + shift).toNat

/-- The lower-case form of a character by itself. -/
def lowerChar (c : Char) : Text :=
  if c = '\u0130' then ['i', '\u0307'] else [lowerLetter c]

/-- A cased character that is not case-ignorable. -/
def isCased (c : Char) : Bool := inRanges casedRanges c.toNat

/-- A character passed over when the end of a word is looked for. -/
def isCaseIgnorable (c : Char) : Bool := inRanges caseIgnorableRanges c.toNat

/-- Whether the first character that is not case-ignorable is cased. -/
def startsCased (s : Text) : Bool := ((s.dropWhile isCaseIgnorable).head?.map isCased).getD false

/-- Lower case of what follows a place in a text; `inWord` says whether the last character before
that place, case-ignorable ones passed over, is cased. -/
def lowerFrom (inWord : Bool) : Text → Text
  | [] => []
  | c :: s =>
    (if c = 'Σ' then [if inWord && !startsCased s then 'ς' else 'σ'] else lowerChar c) ++
      lowerFrom (if isCaseIgnorable c then inWord else isCased c) s

/-- **The lower-case form of a text.** Only a capital sigma depends on its neighbours. -/
def lower (s : Text) : Text := if 'Σ' ∈ s then lowerFrom false s else s.flatMap lowerChar

/-- A text without capital sigma is lower-cased character by character. -/
theorem lowerFrom_eq_flatMap {s : Text} (inWord : Bool) (h : 'Σ' ∉ s) :
    lowerFrom inWord s = s.flatMap lowerChar := by
  induction s generalizing inWord with
  | nil => rfl
  | cons c s ih =>
    have hc : c ≠ 'Σ' := fun e => h (by simp [e])
    simp [lowerFrom, hc, ih _ (fun m => h (by simp [m]))]

/-- Lower-casing reads the text from a place outside any word. -/
theorem lower_eq_lowerFrom (s : Text) : lower s = lowerFrom false s := by
  unfold lower
  split
  · rfl
  · exact (lowerFrom_eq_flatMap false (by assumption)).symm

end HebrewCorpus.Text
