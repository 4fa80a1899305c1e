import HebrewCorpus.Text.Encoding
import Mathlib.Data.List.Basic

/-! # Broken UTF-8

A file that no encoding reads is read as UTF-8 all the same. As far as its bytes are UTF-8 of a text, that
text is read, whatever comes after it.

* **`Text.utf8Lead_two`**, **`Text.utf8Lead_three`**, **`Text.utf8Lead_four`**: what the first byte of a
  character leaves missing.
* **`Text.repairUtf8_encodeChar`**, **`Text.repairUtf8_append`**: a character, and a text, in front of
  other bytes.
* **`Text.decodeFile_append`**: a file that is broken off keeps the text before the break. -/

namespace HebrewCorpus.Text

/-! ### First bytes -/

/-- The first of two bytes. -/
theorem utf8Lead_two {b : Nat} (hlow : 0xc2 ≤ b) (hhigh : b ≤ 0xdf) :
    utf8Lead b = ([], some ⟨b - 0xc0, 1, 0x80, 0xbf⟩) := by
  rw [utf8Lead, if_neg (by omega), if_pos ⟨hlow, hhigh⟩]

/-- The first of three bytes. What it begins is no overlong form, and no half of a surrogate pair. -/
theorem utf8Lead_three {b : Nat} (hlow : 0xe0 ≤ b) (hhigh : b ≤ 0xef) :
    utf8Lead b = ([], some ⟨b - 0xe0, 2, if b = 0xe0 then 0xa0 else 0x80,
      if b = 0xed then 0x9f else 0xbf⟩) := by
  rw [utf8Lead, if_neg (by omega), if_neg (by omega)]
  by_cases hfirst : b = 0xe0
  · subst hfirst
    rfl
  by_cases hhalf : b = 0xed
  · subst hhalf
    rfl
  rw [if_neg hfirst, if_neg hhalf, if_pos (by omega), if_neg hfirst, if_neg hhalf]

/-- The first of four bytes. What it begins is no overlong form, and no number beyond the last
character. -/
theorem utf8Lead_four {b : Nat} (hlow : 0xf0 ≤ b) (hhigh : b ≤ 0xf4) :
    utf8Lead b = ([], some ⟨b - 0xf0, 3, if b = 0xf0 then 0x90 else 0x80,
      if b = 0xf4 then 0x8f else 0xbf⟩) := by
  rw [utf8Lead, if_neg (by omega), if_neg (by omega), if_neg (by omega), if_neg (by omega),
    if_neg (by omega)]
  by_cases hfirst : b = 0xf0
  · subst hfirst
    rfl
  by_cases hlast : b = 0xf4
  · subst hlast
    rfl
  rw [if_neg hfirst, if_pos (by omega), if_neg hfirst, if_neg hlast]

/-! ### Characters -/

section Bytes

variable {b : UInt8} {n bits low high : Nat} (hb : b.toNat = n) (bytes : List UInt8)

include hb

/-- After the first byte of a character its rest is missing. -/
theorem repairUtf8_lead {t : Utf8Tail} (h : utf8Lead n = ([], some t)) :
    repairUtf8 none (b :: bytes) = repairUtf8 (some t) bytes := by
  rw [repairUtf8, hb, utf8Step, h]
  rfl

/-- A byte within its bounds makes one byte less missing. -/
theorem repairUtf8_next {missing : Nat} (hlow : low ≤ n) (hhigh : n ≤ high) :
    repairUtf8 (some ⟨bits, missing + 2, low, high⟩) (b :: bytes) =
      repairUtf8 (some ⟨64 * bits + (n - 0x80), missing + 1, 0x80, 0xbf⟩) bytes := by
  rw [repairUtf8, hb, utf8Step, if_pos ⟨hlow, hhigh⟩, if_neg (by simp)]
  rfl

/-- The last byte within its bounds makes the character. -/
theorem repairUtf8_last (hlow : low ≤ n) (hhigh : n ≤ high) :
    repairUtf8 (some ⟨bits, 1, low, high⟩) (b :: bytes) =
      Char.ofNat (64 * bits + (n - 0x80)) :: repairUtf8 none bytes := by
  rw [repairUtf8, hb, utf8Step, if_pos ⟨hlow, hhigh⟩, if_pos (Nat.le_refl 1)]
  rfl

end Bytes

/-- **A character in UTF-8 is read**, whatever bytes come after it. -/
theorem repairUtf8_encodeChar (c : Char) (bytes : List UInt8) :
    repairUtf8 none (String.utf8EncodeChar c ++ bytes) = c :: repairUtf8 none bytes := by
  have hvalid : c.val.toNat < 0xd800 ∨ 0xdfff < c.val.toNat ∧ c.val.toNat < 0x110000 := c.valid
  have hself {n : Nat} (h : n = c.val.toNat) : Char.ofNat n = c := by
    rw [h]
    exact Char.ofNat_toNat c
  have hbyte {n : Nat} (h : n < 256) : (UInt8.ofNat n).toNat = n := UInt8.toNat_ofNat_of_lt' h
  unfold String.utf8EncodeChar
  generalize c.val.toNat = v at hvalid hself
  dsimp only
  -- one, two, three and four bytes
  split
  case isTrue hone =>
    rw [List.cons_append, List.nil_append, repairUtf8, hbyte (by omega), utf8Step, utf8Lead,
      if_pos (by omega), hself rfl]
    rfl
  split
  case isTrue htwo =>
    simp only [List.cons_append, List.nil_append]
    rw [repairUtf8_lead (hbyte (by omega)) _ (utf8Lead_two (by omega) (by omega)),
      repairUtf8_last (hbyte (by omega)) _ (by omega) (by omega), hself (by omega)]
  split
  case isTrue hthree =>
    simp only [List.cons_append, List.nil_append]
    rw [repairUtf8_lead (hbyte (by omega)) _ (utf8Lead_three (by omega) (by omega)),
      repairUtf8_next (hbyte (by omega)) _ (by split_ifs <;> omega) (by split_ifs <;> omega),
      repairUtf8_last (hbyte (by omega)) _ (by omega) (by omega), hself (by omega)]
  case isFalse hfour =>
    simp only [List.cons_append, List.nil_append]
    rw [repairUtf8_lead (hbyte (by omega)) _ (utf8Lead_four (by omega) (by omega)),
      repairUtf8_next (hbyte (by omega)) _ (by split_ifs <;> omega) (by split_ifs <;> omega),
      repairUtf8_next (hbyte (by omega)) _ (by omega) (by omega),
      repairUtf8_last (hbyte (by omega)) _ (by omega) (by omega), hself (by omega)]

/-! ### Texts -/

/-- The bytes of a text are those of its characters. -/
theorem toList_encodeUtf8 (s : Text) :
    (encodeUtf8 s).data.toList = s.flatMap String.utf8EncodeChar := by
  simp [encodeUtf8, List.utf8Encode]

/-- **A text in UTF-8 is read**, whatever bytes come after it. -/
theorem repairUtf8_append (s : Text) (bytes : List UInt8) :
    repairUtf8 none ((encodeUtf8 s).data.toList ++ bytes) = s ++ repairUtf8 none bytes := by
  rw [toList_encodeUtf8]
  induction s with
  | nil => rfl
  | cons c s ih =>
    rw [List.flatMap_cons, List.append_assoc, repairUtf8_encodeChar, ih, List.cons_append]

/-- **A file that no encoding reads keeps the text before the first break.** -/
theorem decodeFile_append {k : Codecs} {s : Text} {bytes : ByteArray}
    (hbroken : (encodeUtf8 s ++ bytes).utf8Decode? = none)
    (hmark : (encodeUtf8 s ++ bytes).data.toList ∉ brokenByteOrderMarks)
    (hunread : ∀ encoding ∈ (k.guess (encodeUtf8 s ++ bytes)).candidates,
      k.decodeAs encoding (encodeUtf8 s ++ bytes) = none) :
    decodeFile k (encodeUtf8 s ++ bytes) = s ++ repairUtf8 none bytes.data.toList := by
  have hbytes : (encodeUtf8 s ++ bytes).data.toList =
      (encodeUtf8 s).data.toList ++ bytes.data.toList := by simp
  rw [decodeFile, hbroken]
  dsimp only
  rw [if_neg hmark, List.findSome?_eq_none_iff.2 hunread, Option.getD_none, hbytes,
    repairUtf8_append]

/-- A letter, a character that is broken off by another one, a byte that begins none, and a character
that the end breaks off. -/
example : repairUtf8 none [0xd7, 0x90, 0xe2, 0x82, 0x61, 0xff, 0xf0, 0x9f] =
    "א\ufffda\ufffd\ufffd".toList := by
  decide

end HebrewCorpus.Text
