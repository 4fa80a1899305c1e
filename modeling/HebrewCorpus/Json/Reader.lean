import HebrewCorpus.Json.Basic

/-! # Reading JSON texts

A text is cut into tokens, one character at a time, and the tokens are put together on a stack of
the arrays and objects that are still open. Both machines move forward only.

* **`Json.parse`**: the value of a JSON text.
* **`JsonFault`**: why a text has none: it is malformed, or one of its whole numbers has more
  digits than are read. Of two faults the earlier one is reported.
* **`Json.escapesHalf`**: whether a text is meant that holds half a surrogate pair, which is no
  character.

Beyond the standard, `NaN`, `Infinity` and `-Infinity` are numbers. Of two members with one key the
later value counts, in the place of the earlier. -/

namespace HebrewCorpus

/-- Why a JSON text has no value. -/
inductive JsonFault
  | malformed
  | numeralTooLong
  deriving DecidableEq, Repr

namespace Json

/-! ### Tokens -/

/-- A token of a JSON text. -/
inductive Token
  /-- One of the six structural characters. -/
  | mark (c : Char)
  | text (value : Text)
  /-- A run of letters, digits, signs and points: a number or a word. -/
  | scalar (lexeme : Text)
  /-- A place where no token can be read. -/
  | bad
  deriving DecidableEq, Repr

/-- Where the reader of tokens stands. Code points of a text are gathered last one first. -/
inductive LexMode
  | between
  | inText (codes : List Nat)
  | afterBackslash (codes : List Nat)
  | inEscape (codes : List Nat) (missing value : Nat)
  | inScalar (lexeme : Text)
  | failed

/-- The reader of tokens: where it stands, and the tokens read, the last one first. -/
structure Lexer where
  mode : LexMode
  tokens : List Token

/-- White space between tokens. -/
def isGap (c : Char) : Bool := c = ' ' || c = '\t' || c = '\n' || c = '\r'

/-- The structural characters. -/
def isMark (c : Char) : Bool :=
  c = '[' || c = ']' || c = '\x7b' || c = '\x7d' || c = ':' || c = ','

/-- The characters of numbers and words. -/
def isScalarChar (c : Char) : Bool := c.isAlphanum || c = '-' || c = '+' || c = '.' || c = '_'

/-- The value of a hexadecimal digit. -/
def hexValue? (c : Char) : Option Nat :=
  if c.isDigit then some (c.toNat - 48)
  else if 'a' ≤ c ∧ c ≤ 'f' then some (c.toNat - 87)
  else if 'A' ≤ c ∧ c ≤ 'F' then some (c.toNat - 55)
  else none

/-- The character that a short escape stands for. -/
def shortEscape? : Char → Option Char
  | '"' => some '"'
  | '\\' => some '\\'
  | '/' => some '/'
  | 'b' => some '\x08'
  | 'f' => some '\x0c'
  | 'n' => some '\n'
  | 'r' => some '\r'
  | 't' => some '\t'
  | _ => none

/-- One of the two halves of a surrogate pair. -/
def isSurrogate (code : Nat) : Bool := 0xd800 ≤ code && code < 0xe000

/-- The first half and the second half of a surrogate pair, in this order. -/
def isPair (high low : Nat) : Bool :=
  0xd800 ≤ high && high < 0xdc00 && 0xdc00 ≤ low && low < 0xe000

/-- The text of gathered code points: two halves of a surrogate pair make one character, and a half
by itself becomes the replacement character. -/
def joinSurrogates : List Nat → Text
  | [] => []
  | [code] => [if isSurrogate code then '\ufffd' else Char.ofNat code]
  | high :: low :: codes =>
    if isPair high low then
      Char.ofNat (0x10000 + (high - 0xd800) * 0x400 + (low - 0xdc00)) :: joinSurrogates codes
    else
      (if isSurrogate high then '\ufffd' else Char.ofNat high) :: joinSurrogates (low :: codes)

/-- Whether half a surrogate pair stands by itself among the code points. -/
def hasHalf : List Nat → Bool
  | [] => false
  | [code] => isSurrogate code
  | high :: low :: codes =>
    if isPair high low then hasHalf codes else isSurrogate high || hasHalf (low :: codes)

/-- The text of code points gathered last one first. -/
def ofGathered (codes : List Nat) : Text :=
  if codes.any isSurrogate then joinSurrogates codes.reverse
  else codes.foldl (fun s code => Char.ofNat code :: s) []

/-- The reader after a character that begins a token or stands between two. -/
def Lexer.start (tokens : List Token) (c : Char) : Lexer :=
  if isGap c then ⟨.between, tokens⟩
  else if isMark c then ⟨.between, .mark c :: tokens⟩
  else if c = '"' then ⟨.inText [], tokens⟩
  else if isScalarChar c then ⟨.inScalar [c], tokens⟩
  else ⟨.failed, .bad :: tokens⟩

/-- The reader after one more character. -/
def Lexer.step (l : Lexer) (c : Char) : Lexer :=
  match l.mode with
  | .between => Lexer.start l.tokens c
  | .inText codes =>
    if c = '"' then ⟨.between, .text (ofGathered codes) :: l.tokens⟩
    else if c = '\\' then ⟨.afterBackslash codes, l.tokens⟩
    else if c.toNat < 0x20 then ⟨.failed, .bad :: l.tokens⟩
    else ⟨.inText (c.toNat :: codes), l.tokens⟩
  | .afterBackslash codes =>
    if c = 'u' then ⟨.inEscape codes 4 0, l.tokens⟩
    else
      match shortEscape? c with
      | some e => ⟨.inText (e.toNat :: codes), l.tokens⟩
      | none => ⟨.failed, .bad :: l.tokens⟩
  | .inEscape codes missing value =>
    match hexValue? c with
    | some d =>
      if missing ≤ 1 then ⟨.inText ((16 * value + d) :: codes), l.tokens⟩
      else ⟨.inEscape codes (missing - 1) (16 * value + d), l.tokens⟩
    | none => ⟨.failed, .bad :: l.tokens⟩
  | .inScalar lexeme =>
    if isScalarChar c then ⟨.inScalar (c :: lexeme), l.tokens⟩
    else Lexer.start (.scalar lexeme.reverse :: l.tokens) c
  | .failed => l

/-- The tokens when the text ends. -/
def Lexer.finish (l : Lexer) : List Token :=
  match l.mode with
  | .between | .failed => l.tokens.reverse
  | .inScalar lexeme => (.scalar lexeme.reverse :: l.tokens).reverse
  | _ => (.bad :: l.tokens).reverse

/-- **The tokens of a text**, up to the first place where none can be read. -/
def tokens (s : Text) : List Token := (s.foldl Lexer.step ⟨.between, []⟩).finish

/-- Whether a character ends a text in which half a surrogate pair stands by itself. -/
def Lexer.endsHalf (l : Lexer) (c : Char) : Bool :=
  match l.mode with
  | .inText codes => c = '"' && hasHalf codes.reverse
  | _ => false

/-- The reader after one more character, and whether such a text has ended by now. -/
def Lexer.watch (l : Lexer × Bool) (c : Char) : Lexer × Bool := (l.1.step c, l.2 || l.1.endsHalf c)

/-- **Whether half a surrogate pair is escaped by itself** in some text. -/
def escapesHalf (s : Text) : Bool := (s.foldl Lexer.watch (⟨.between, []⟩, false)).2

/-! ### Numbers and words -/

/-- The digits before a decimal point, and what comes after them; no digit follows a leading zero. -/
def readWhole : Text → Text × Text
  | '0' :: s => (['0'], s)
  | s => (s.takeWhile Char.isDigit, s.dropWhile Char.isDigit)

/-- The digits after a decimal point, and what comes after them. A point without digits is none. -/
def readFraction : Text → Text × Text
  | '.' :: s =>
    let digits := s.takeWhile Char.isDigit
    if digits.isEmpty then ([], '.' :: s) else (digits, s.dropWhile Char.isDigit)
  | s => ([], s)

/-- The sign of a power of ten, and what comes after it. -/
def readSign : Text → Bool × Text
  | '-' :: s => (true, s)
  | '+' :: s => (false, s)
  | s => (false, s)

/-- The power of ten after a number's digits, and what comes after it. A power without digits is
none. -/
def readPower : Text → Option Int × Text
  | [] => (none, [])
  | c :: s =>
    let (negative, rest) := readSign s
    let digits := rest.takeWhile Char.isDigit
    if (c = 'e' ∨ c = 'E') ∧ digits ≠ [] then
      let power : Int := digitsValue digits
      (some (if negative then -power else power), rest.dropWhile Char.isDigit)
    else (none, c :: s)

/-- The number of the longest run of characters that make one, and what comes after it. A whole number
with too many digits is a fault of its own, whatever comes after it. -/
def readNumber (negative : Bool) (s : Text) : Except JsonFault (Json × Text) :=
  let (whole, s) := readWhole s
  let (fraction, s) := readFraction s
  let (power, rest) := readPower s
  if whole.isEmpty then .error .malformed
  else if fraction.isEmpty && power.isNone then
    if maxDigits < whole.length then .error .numeralTooLong
    else
      let n : Int := digitsValue whole
      .ok (.int (if negative then -n else n), rest)
  else
    .ok (.real (.ofDecimal negative (digitsValue (whole ++ fraction))
      (power.getD 0 - fraction.length)), rest)

/-- The value of a number without sign. -/
def readUnsigned (negative : Bool) (s : Text) : Except JsonFault Json := do
  let (value, rest) ← readNumber negative s
  if rest.isEmpty then return value else .error .malformed

/-- The value of a run of letters, digits, signs and points. -/
def readScalar (s : Text) : Except JsonFault Json :=
  if s = "null".toList then .ok .null
  else if s = "true".toList then .ok (.bool true)
  else if s = "false".toList then .ok (.bool false)
  else if s = "NaN".toList then .ok (.real .nan)
  else if s = "Infinity".toList then .ok (.real (.infinite false))
  else if s = "-Infinity".toList then .ok (.real (.infinite true))
  else
    match s with
    | '-' :: t => readUnsigned true t
    | t => readUnsigned false t

/-! ### Values -/

/-- An array or object that is still open, its parts the last one first. -/
inductive Frame
  | array (items : List Json)
  | object (members : List (Text × Json))
  /-- An object whose last key still waits for its value. -/
  | member (members : List (Text × Json)) (key : Text)

/-- What may come next. -/
inductive Expectation
  | value
  | valueOrEnd
  | key
  | keyOrEnd
  | colon
  | commaOrEnd
  | nothing (result : Json)

/-- The reader of values: the open arrays and objects, the innermost first. -/
structure Assembler where
  frames : List Frame
  next : Expectation

/-- The reader after a whole value. -/
def Assembler.complete (value : Json) : List Frame → Assembler
  | .array items :: frames => ⟨.array (value :: items) :: frames, .commaOrEnd⟩
  | .member members key :: frames => ⟨.object ((key, value) :: members) :: frames, .commaOrEnd⟩
  | frames => ⟨frames, .nothing value⟩

/-- The object with the given members, the last one first; of two with one key the later counts. -/
def ofMembers (members : List (Text × Json)) : Json :=
  .object (members.reverse.foldl (fun ms m => put m.1 m.2 ms) [])

/-- The reader after the end of the innermost array or object. -/
def Assembler.leave (a : Assembler) (c : Char) : Except JsonFault Assembler :=
  match a.frames with
  | .array items :: frames =>
    if c = ']' then .ok (.complete (.array items.reverse) frames) else .error .malformed
  | .object members :: frames =>
    if c = '\x7d' then .ok (.complete (ofMembers members) frames) else .error .malformed
  | _ => .error .malformed

/-- The reader after the first token of a value. -/
def Assembler.enter (a : Assembler) : Token → Except JsonFault Assembler
  | .mark c =>
    if c = '[' then .ok ⟨.array [] :: a.frames, .valueOrEnd⟩
    else if c = '\x7b' then .ok ⟨.object [] :: a.frames, .keyOrEnd⟩
    else .error .malformed
  | .text s => .ok (.complete (.text s) a.frames)
  | .scalar lexeme => (readScalar lexeme).map fun value => .complete value a.frames
  | .bad => .error .malformed

/-- The reader after a key. -/
def Assembler.named (a : Assembler) (key : Text) : Except JsonFault Assembler :=
  match a.frames with
  | .object members :: frames => .ok ⟨.member members key :: frames, .colon⟩
  | _ => .error .malformed

/-- The reader after one more token. -/
def Assembler.step (a : Assembler) (t : Token) : Except JsonFault Assembler :=
  match a.next, t with
  | .value, t => a.enter t
  | .valueOrEnd, .mark ']' => a.leave ']'
  | .valueOrEnd, t => a.enter t
  | .key, .text s => a.named s
  | .keyOrEnd, .text s => a.named s
  | .keyOrEnd, .mark c => a.leave c
  | .colon, .mark ':' => .ok ⟨a.frames, .value⟩
  | .commaOrEnd, .mark ',' =>
    match a.frames with
    | .array _ :: _ => .ok ⟨a.frames, .value⟩
    | _ => .ok ⟨a.frames, .key⟩
  | .commaOrEnd, .mark c => a.leave c
  | _, _ => .error .malformed

/-- **The value of a JSON text.** -/
def parse (s : Text) : Except JsonFault Json := do
  let a ← (tokens s).foldlM Assembler.step ⟨[], .value⟩
  match a.next with
  | .nothing result => .ok result
  | _ => .error .malformed

end Json

end HebrewCorpus
