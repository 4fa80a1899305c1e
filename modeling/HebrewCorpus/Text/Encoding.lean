import HebrewCorpus.Text.Basic

/-! # Encodings of text files

A file is read as UTF-8, with or without a byte order mark, and its lines may end in any of the three
usual ways. Bytes that are no UTF-8 are read in the encoding that a detector guesses or in the Hebrew
code page Windows-1255, whichever is surer. What can be read in neither is read as UTF-8 after all,
with replacement characters in it.

* **`Text.Codecs`**: the detector, and the encodings that are known by name.
* **`Text.decodeFile`**: the text of a file's bytes.
* **`Text.encodeUtf8`**: the UTF-8 bytes of a text.
* **`Text.unifyLineEnds`**: every line end becomes a line feed. -/

namespace HebrewCorpus.Text

/-- The characters of the upper half of the code page Windows-1255, from byte 128 on. The
replacement character marks the bytes it leaves undefined. -/
def hebrewCodePage : List Nat :=
  [0x20ac, 0xfffd, 0x201a, 0x192, 0x201e, 0x2026, 0x2020, 0x2021, 0x2c6, 0x2030, 0xfffd, 0x2039,
    0xfffd, 0xfffd, 0xfffd, 0xfffd, 0xfffd, 0x2018, 0x2019, 0x201c, 0x201d, 0x2022, 0x2013, 0x2014,
    0x2dc, 0x2122, 0xfffd, 0x203a, 0xfffd, 0xfffd, 0xfffd, 0xfffd, 0xa0, 0xa1, 0xa2, 0xa3, 0x20aa,
    0xa5, 0xa6, 0xa7, 0xa8, 0xa9, 0xd7, 0xab, 0xac, 0xad, 0xae, 0xaf, 0xb0, 0xb1, 0xb2, 0xb3, 0xb4,
    0xb5, 0xb6, 0xb7, 0xb8, 0xb9, 0xf7, 0xbb, 0xbc, 0xbd, 0xbe, 0xbf, 0x5b0, 0x5b1, 0x5b2, 0x5b3,
    0x5b4, 0x5b5, 0x5b6, 0x5b7, 0x5b8, 0x5b9, 0xfffd, 0x5bb, 0x5bc, 0x5bd, 0x5be, 0x5bf, 0x5c0,
    0x5c1, 0x5c2, 0x5c3, 0x5f0, 0x5f1, 0x5f2, 0x5f3, 0x5f4, 0xfffd, 0xfffd, 0xfffd, 0xfffd, 0xfffd,
    0xfffd, 0xfffd, 0x5d0, 0x5d1, 0x5d2, 0x5d3, 0x5d4, 0x5d5, 0x5d6, 0x5d7, 0x5d8, 0x5d9, 0x5da,
    0x5db, 0x5dc, 0x5dd, 0x5de, 0x5df, 0x5e0, 0x5e1, 0x5e2, 0x5e3, 0x5e4, 0x5e5, 0x5e6, 0x5e7,
    0x5e8, 0x5e9, 0x5ea, 0xfffd, 0xfffd, 0x200e, 0x200f, 0xfffd]

/-- The character of a byte in the code page Windows-1255, unless it leaves the byte undefined. -/
def ofHebrewByte? (b : UInt8) : Option Char :=
  if b.toNat < 128 then some (Char.ofNat b.toNat)
  else (hebrewCodePage[b.toNat - 128]?).bind fun code =>
    if code = 0xfffd then none else some (Char.ofNat code)

/-! ### Encodings by name -/

/-- **What a detector says of bytes**: the name of an encoding, when it finds one, and whether it is
sure enough of it. -/
structure EncodingGuess where
  encoding : Option Text
  isSure : Bool
  deriving DecidableEq, Repr

/-- **A detector of encodings**, and the encodings that are known by name. -/
structure Codecs where
  guess : ByteArray → EncodingGuess
  /-- The text of bytes in an encoding, when the encoding is known and the bytes are written in it. -/
  decode : (encoding : Text) → ByteArray → Option Text

/-- A detector that finds nothing, and no encodings that are known by name. -/
def Codecs.plain : Codecs := ⟨fun _ => ⟨none, false⟩, fun _ _ => none⟩

/-- The name of the Hebrew code page. -/
def hebrewEncoding : Text := "windows-1255".toList

/-- The encodings that bytes are tried in, one after the other. The Hebrew code page comes first
unless the detector is sure of another encoding. -/
def EncodingGuess.candidates (g : EncodingGuess) : List Text :=
  let guessed := (g.encoding.filter (!·.isEmpty)).getD "utf-8".toList
  if g.isSure then [guessed, hebrewEncoding] else [hebrewEncoding, guessed]

/-- The text of bytes in an encoding, the Hebrew code page among those that are known. -/
def Codecs.decodeAs (k : Codecs) (encoding : Text) (bytes : ByteArray) : Option Text :=
  if encoding = hebrewEncoding then bytes.data.toList.mapM ofHebrewByte? else k.decode encoding bytes

/-! ### UTF-8 -/

/-- What is missing of a character in UTF-8: the bits that were read of it, how many bytes are to
follow, and the bounds of the next one. -/
structure Utf8Tail where
  bits : Nat
  missing : Nat
  low : Nat
  high : Nat
  deriving DecidableEq, Repr

/-- A place in UTF-8 where no character can be read. -/
def replacement : Char := '\ufffd'

/-- The text that ends with the first byte of a character, and what is missing of that character. -/
def utf8Lead (b : Nat) : Text × Option Utf8Tail :=
  if b < 0x80 then ([Char.ofNat b], none)
  else if 0xc2 ≤ b ∧ b ≤ 0xdf then ([], some ⟨b - 0xc0, 1, 0x80, 0xbf⟩)
  else if b = 0xe0 then ([], some ⟨0, 2, 0xa0, 0xbf⟩)
  else if b = 0xed then ([], some ⟨0xd, 2, 0x80, 0x9f⟩)
  else if 0xe1 ≤ b ∧ b ≤ 0xef then ([], some ⟨b - 0xe0, 2, 0x80, 0xbf⟩)
  else if b = 0xf0 then ([], some ⟨0, 3, 0x90, 0xbf⟩)
  else if 0xf1 ≤ b ∧ b ≤ 0xf3 then ([], some ⟨b - 0xf0, 3, 0x80, 0xbf⟩)
  else if b = 0xf4 then ([], some ⟨4, 3, 0x80, 0x8f⟩)
  else ([replacement], none)

/-- The text that ends with one more byte, and what is missing then. -/
def utf8Step (open? : Option Utf8Tail) (b : Nat) : Text × Option Utf8Tail :=
  match open? with
  | none => utf8Lead b
  | some t =>
    if t.low ≤ b ∧ b ≤ t.high then
      let bits := 64 * t.bits + (b - 0x80)
      if t.missing ≤ 1 then ([Char.ofNat bits], none)
      else ([], some ⟨bits, t.missing - 1, 0x80, 0xbf⟩)
    else
      -- the byte breaks off the character before it, and may begin another one
      let (s, open?) := utf8Lead b
      (replacement :: s, open?)

/-- **The text of bytes that are mostly UTF-8**, a replacement character in the place of each character
that is broken off and of each byte that begins none. -/
def repairUtf8 (open? : Option Utf8Tail) : List UInt8 → Text
  | [] => if open?.isSome then [replacement] else []
  | b :: bytes =>
    let (s, open?) := utf8Step open? b.toNat
    s ++ repairUtf8 open? bytes

/-- The UTF-8 bytes of a text. -/
def encodeUtf8 (s : Text) : ByteArray := (String.ofList s).toUTF8

/-- The text without a byte order mark at its start. -/
def dropByteOrderMark : Text → Text
  | '\ufeff' :: s => s
  | s => s

/-- The text with each carriage return, alone or before a line feed, made one line feed. -/
def unifyLineEnds (s : Text) : Text := (go s []).reverse
where
  /-- Reads on with the characters already written, the last one first. -/
  go : Text → Text → Text
    | [], written => written
    | '\r' :: '\n' :: s, written => go s ('\n' :: written)
    | '\r' :: s, written => go s ('\n' :: written)
    | c :: s, written => go s (c :: written)

/-- The bytes that only begin a byte order mark. They are UTF-8 of nothing, but are passed over when
they are the whole of a file. -/
def brokenByteOrderMarks : List (List UInt8) := [[0xef], [0xef, 0xbb]]

/-- **The text of a file.** UTF-8 wherever the bytes allow it, else the first encoding that does. -/
def decodeFile (k : Codecs) (bytes : ByteArray) : Text :=
  match bytes.utf8Decode? with
  | some chars => unifyLineEnds (dropByteOrderMark chars.toList)
  | none =>
    if bytes.data.toList ∈ brokenByteOrderMarks then []
    else ((k.guess bytes).candidates.findSome? (k.decodeAs · bytes)).getD
      (repairUtf8 none bytes.data.toList)

/-- The UTF-8 bytes of a text are read back as that text, its line ends made uniform and a byte
order mark left out. -/
theorem decodeFile_encodeUtf8 (k : Codecs) (s : Text) :
    decodeFile k (encodeUtf8 s) = unifyLineEnds (dropByteOrderMark s) := by
  simp [decodeFile, encodeUtf8]

end HebrewCorpus.Text
