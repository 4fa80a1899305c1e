import HebrewCorpus.Proofs.Citation.References

/-! # Citations written and read again

A citation that was read from a text is known by its parts: the text that is made of them is read as
the same citation, as long as it names a place in its book and its numbers are short enough to be
read.

* **`Citation.IsRead`**: the citations with an address that texts are read as; `isRead_of_parse`
  finds them so.
* **`parse_composed`**: a citation, written and read again.
* **`parse_text_of_parse`**: a text, read, written and read again. -/

namespace HebrewCorpus.Citation

open Text

/-! ### Citations as they are read -/

/-- **The last word of a text** that is put together around it. -/
theorem lastWord?_append {front token : Text} (hne : front ≠ []) (hspace : ' ' ∉ token) :
    lastWord? (front ++ ' ' :: token) = some (front, token) := by
  obtain ⟨c, front, rfl⟩ := List.exists_cons_of_ne_nil hne
  rw [lastWord?, cutLast?_append _ hspace]

/-- A text with a last word is put together around it. -/
theorem of_lastWord?_eq_some {s front token : Text} (h : lastWord? s = some (front, token)) :
    front ≠ [] ∧ s = front ++ ' ' :: token := by
  rw [lastWord?] at h
  cases hcut : cutLast? ' ' s with
  | none =>
    rw [hcut] at h
    cases h
  | some cut =>
    rw [hcut] at h
    obtain ⟨_ | ⟨c, front'⟩, token'⟩ := cut
    · cases h
    · cases h
      exact ⟨List.cons_ne_nil _ _, (cutLast?_eq_some hcut).1⟩

/-- The text before the last word of a trimmed text is not empty once it is trimmed. -/
theorem trim_ne_nil_of_lastWord? {s front token : Text} (hs : IsTrimmed s)
    (h : lastWord? s = some (front, token)) : trim front ≠ [] := by
  obtain ⟨hne, rfl⟩ := of_lastWord?_eq_some h
  obtain ⟨c, front, rfl⟩ := List.exists_cons_of_ne_nil hne
  exact trim_ne_nil hne hs.head

/-- A text whose last word, if it has one, is no address. -/
def NoAddress (s : Text) : Prop :=
  ∀ front token, lastWord? s = some (front, token) → ∃ isDaf, parseReferences token = .ok ([], isDaf)

/-- **A citation with an address, as texts are read.** -/
structure IsRead (c : Citation) : Prop where
  book_trimmed : IsTrimmed c.book
  book_comma : ',' ∉ c.book
  division_trimmed : ∀ division ∈ c.division, IsTrimmed division ∧ division ≠ []
  /-- Something is named in front of the numbers. -/
  named : c.division = none → c.book ≠ []
  natural : ∃ ns : List Nat, c.references = ns.map Int.ofNat
  /-- Without numbers the part of the book is the address. -/
  division_only : c.references = [] →
    c.isDaf = false ∧ ∃ division, c.division = some division ∧ NoAddress division

/-- A text that is not empty is kept. -/
theorem nonempty?_eq_some {s : Text} (h : s ≠ []) : nonempty? s = some s := by
  rw [nonempty?, List.isEmpty_eq_false_iff.2 h]
  rfl

/-- A book and a part of it that ends in no address are a citation as texts are read. -/
theorem isRead_of_noAddress {book division raw : Text} (book_trimmed : IsTrimmed book)
    (book_comma : ',' ∉ book) (trimmed : IsTrimmed division) (hne : division ≠ [])
    (noAddress : NoAddress division) : IsRead ⟨book, some division, [], raw, false⟩ :=
  ⟨book_trimmed, book_comma, fun _ hd => Option.some.inj hd ▸ ⟨trimmed, hne⟩, nofun, ⟨[], rfl⟩,
    fun _ => ⟨rfl, division, rfl, noAddress⟩⟩

/-- A text with a comma is read as a citation of a part of the book, or within one. -/
theorem isRead_of_parseDivided {raw book rest : Text} {c : Citation}
    (book_trimmed : IsTrimmed book) (book_comma : ',' ∉ book) (rest_trimmed : IsTrimmed rest)
    (h : parseDivided raw book rest = .ok c) (address : c.hasAddress = true) : IsRead c := by
  rw [parseDivided] at h
  split at h
  · next hnone =>
    cases h
    by_cases hne : rest = []
    · subst hne
      cases address
    · rw [nonempty?_eq_some hne]
      refine isRead_of_noAddress book_trimmed book_comma rest_trimmed hne ?_
      intro front token hsome
      rw [hnone] at hsome
      cases hsome
  · next front token hlast =>
    obtain ⟨⟨references, isDaf⟩, hrefs, h⟩ := exists_of_bind_eq_ok h
    dsimp only at h
    split at h
    · next hnil =>
      obtain rfl := List.isEmpty_iff.1 hnil
      cases h
      refine isRead_of_noAddress book_trimmed book_comma rest_trimmed ?_ ?_
      · rintro rfl
        cases hlast
      · intro front' token' hlast'
        rw [hlast] at hlast'
        cases hlast'
        exact ⟨isDaf, hrefs⟩
    · next hne =>
      obtain ⟨ns, rfl⟩ := exists_naturals_of_parseReferences hrefs
      have hfront := trim_ne_nil_of_lastWord? rest_trimmed hlast
      cases h
      rw [nonempty?_eq_some hfront]
      exact ⟨book_trimmed, book_comma, fun _ hd => Option.some.inj hd ▸ ⟨isTrimmed_trim front, hfront⟩,
        nofun, ⟨ns, rfl⟩, fun hnil => absurd (List.isEmpty_iff.2 hnil) hne⟩

/-- A text without a comma is read as a citation of numbers, if it has an address. -/
theorem isRead_of_parseUndivided {raw text : Text} {c : Citation} (trimmed : IsTrimmed text)
    (comma : ',' ∉ text) (h : parseUndivided raw text = .ok c) (address : c.hasAddress = true) :
    IsRead c := by
  rw [parseUndivided] at h
  split at h
  · cases h
    cases address
  · next front token hlast =>
    obtain ⟨⟨references, isDaf⟩, hrefs, h⟩ := exists_of_bind_eq_ok h
    dsimp only at h
    split at h
    · cases h
      cases address
    · next hne =>
      obtain ⟨ns, rfl⟩ := exists_naturals_of_parseReferences hrefs
      obtain ⟨-, hsplit⟩ := of_lastWord?_eq_some hlast
      cases h
      have hfront : ',' ∉ trim front :=
        fun hm => comma (hsplit ▸ List.mem_append_left _ (mem_of_mem_trim hm))
      exact ⟨isTrimmed_trim front, hfront, nofun, fun _ => trim_ne_nil_of_lastWord? trimmed hlast,
        ⟨ns, rfl⟩, fun hnil => absurd (List.isEmpty_iff.2 hnil) hne⟩

/-- **A text with an address is read as a citation of trimmed parts.** -/
theorem isRead_of_parse {raw : Text} {c : Citation} (h : parse raw = .ok c)
    (address : c.hasAddress = true) : IsRead c := by
  rw [parse] at h
  rcases cutAt_cases ',' (trim raw) with ⟨comma, hcut⟩ | ⟨front, back, comma, -, hcut⟩
  · simp only [hcut] at h
    exact isRead_of_parseUndivided (isTrimmed_trim raw) comma h address
  · simp only [hcut] at h
    exact isRead_of_parseDivided (isTrimmed_trim front) (fun hm => comma (mem_of_mem_trim hm))
      (isTrimmed_trim back) h address

/-! ### Citations as they are written -/

/-- The numbers that a citation is written with are one word, the last one. -/
theorem space_not_mem_referenceTexts {c : Citation} {ns : List Nat}
    (hrefs : c.references = ns.map Int.ofNat) : ' ' ∉ joinWith [':'] c.referenceTexts :=
  fun hm => (of_mem_addressSigns (mem_addressSigns hrefs hm)).2.2.2 rfl

/-- A citation without a comma, read from a trimmed text. -/
theorem parse_of_not_mem {text : Text} (comma : ',' ∉ text) (trimmed : IsTrimmed text) :
    parse text = parseUndivided text text := by
  rw [parse, trim_eq_self trimmed, cutAt_eq_self comma]

/-- A citation with a comma, read from a trimmed text of trimmed parts. -/
theorem parse_of_comma {book rest : Text} (comma : ',' ∉ book) (book_trimmed : IsTrimmed book)
    (rest_trimmed : IsTrimmed rest) (rest_ne : rest ≠ []) :
    parse (book ++ ", ".toList ++ rest) = parseDivided (book ++ ", ".toList ++ rest) book rest := by
  have htext : book ++ ", ".toList ++ rest = book ++ ',' :: ' ' :: rest := by
    rw [List.append_assoc]
    rfl
  have htrimmed : IsTrimmed (book ++ ", ".toList ++ rest) := by
    refine IsTrimmed.between (by simp) rest_ne ?_ rest_trimmed.last
    cases book with
    | nil =>
      intro c hc
      cases hc
      decide
    | cons c book => exact book_trimmed.head
  rw [parse, trim_eq_self htrimmed]
  simp only [htext, cutAt_append comma, trim_eq_self book_trimmed,
    trim_cons_blank isBlankChar_space, trim_eq_self rest_trimmed]

/-- A part of the book that ends in no address is read as it stands. -/
theorem parseDivided_of_noAddress {raw book rest : Text} (hne : rest ≠ []) (h : NoAddress rest) :
    parseDivided raw book rest = .ok ⟨book, some rest, [], raw, false⟩ := by
  rw [parseDivided]
  cases hlast : lastWord? rest with
  | none =>
    simp only [nonempty?_eq_some hne]
    rfl
  | some cut =>
    obtain ⟨front, token⟩ := cut
    obtain ⟨isDaf, hrefs⟩ := h front token hlast
    simp only [hrefs]
    rfl

section Address

variable {raw front token : Text} {references : List Int} {isDaf : Bool} (trimmed : IsTrimmed front)
  (front_ne : front ≠ []) (space : ' ' ∉ token)
  (hrefs : parseReferences token = .ok (references, isDaf)) (numbers : references ≠ [])
include trimmed front_ne space hrefs numbers

/-- A part of the book is read in front of an address. -/
theorem parseDivided_append (book : Text) :
    parseDivided raw book (front ++ ' ' :: token) =
      .ok ⟨book, some front, references, raw, isDaf⟩ := by
  rw [parseDivided, lastWord?_append front_ne space]
  simp only [hrefs, trim_eq_self trimmed, nonempty?_eq_some front_ne]
  show (if references.isEmpty = true then _ else _) = _
  rw [if_neg (by simpa using numbers)]
  rfl

/-- A book is read in front of an address. -/
theorem parseUndivided_append :
    parseUndivided raw (front ++ ' ' :: token) = .ok ⟨front, none, references, raw, isDaf⟩ := by
  rw [parseUndivided, lastWord?_append front_ne space]
  simp only [hrefs, trim_eq_self trimmed]
  show (if references.isEmpty = true then _ else _) = _
  rw [if_neg (by simpa using numbers)]
  rfl

end Address

/-- A trimmed text is trimmed with numbers behind it. -/
theorem isTrimmed_append_referenceTexts {c : Citation} {front : Text} {ns : List Nat}
    (hrefs : c.references = ns.map Int.ofNat) (numbers : ns ≠ []) (trimmed : IsTrimmed front)
    (hne : front ≠ []) : IsTrimmed (front ++ ' ' :: joinWith [':'] c.referenceTexts) := by
  refine IsTrimmed.between hne (List.cons_ne_nil _ _) trimmed.head ?_
  intro x hx
  rw [List.getLast?_cons_of_ne_nil (joinWith_referenceTexts_ne_nil hrefs numbers)] at hx
  exact (of_mem_addressSigns (mem_addressSigns hrefs (List.mem_of_getLast? hx))).1

/-- A part of the book is written behind a comma, and numbers behind that. -/
theorem composed_of_division {c : Citation} {division : Text}
    (hdivision : c.division = some division) (hne : division ≠ []) :
    c.composed = c.book ++ ", ".toList ++ (division ++
      if c.references.isEmpty then [] else ' ' :: joinWith [':'] c.referenceTexts) := by
  obtain ⟨d, division, rfl⟩ := List.exists_cons_of_ne_nil hne
  rw [composed, hdivision]
  dsimp only
  split <;> simp only [List.append_assoc, List.append_nil]

/-- Numbers are written behind the book where no part of it is named. -/
theorem composed_of_references {c : Citation} (hdivision : c.division = none)
    (numbers : c.references ≠ []) :
    c.composed = c.book ++ ' ' :: joinWith [':'] c.referenceTexts := by
  rw [composed, hdivision, List.isEmpty_eq_false_iff.2 numbers]
  rfl

/-- **A citation, written and read again.** -/
theorem parse_composed {c : Citation} (h : IsRead c)
    (fit : ∀ n ∈ c.references, (decimal n).length ≤ maxDigits) :
    parse c.composed = .ok { c with raw := c.composed } := by
  obtain ⟨ns, hrefs⟩ := h.natural
  by_cases hnil : c.references = []
  · obtain ⟨hdaf, division, hdivision, noAddress⟩ := h.division_only hnil
    obtain ⟨trimmed, hne⟩ := h.division_trimmed division hdivision
    have hcomposed : c.composed = c.book ++ ", ".toList ++ division := by
      rw [composed_of_division hdivision hne, hnil, List.isEmpty_nil, if_pos rfl, List.append_nil]
    rw [hcomposed, parse_of_comma h.book_comma h.book_trimmed trimmed hne,
      parseDivided_of_noAddress hne noAddress, hdivision, hnil, hdaf]
  · have numbers : ns ≠ [] := by
      rintro rfl
      exact hnil hrefs
    have hread := parseReferences_referenceTexts hrefs numbers
      fun n hn => fit (Int.ofNat n) (hrefs ▸ List.mem_map_of_mem hn)
    have hspace := space_not_mem_referenceTexts hrefs
    cases hdivision : c.division with
    | none =>
      have hne := h.named hdivision
      have comma : ',' ∉ c.book ++ ' ' :: joinWith [':'] c.referenceTexts := by
        intro hm
        rcases List.mem_append.1 hm with hm | hm
        · exact h.book_comma hm
        · rcases List.mem_cons.1 hm with hm | hm
          · exact absurd hm (by decide)
          · exact (of_mem_addressSigns (mem_addressSigns hrefs hm)).2.2.1 rfl
      rw [composed_of_references hdivision hnil, parse_of_not_mem comma
          (isTrimmed_append_referenceTexts hrefs numbers h.book_trimmed hne),
        parseUndivided_append h.book_trimmed hne hspace hread hnil]
    | some division =>
      obtain ⟨trimmed, hne⟩ := h.division_trimmed division hdivision
      rw [composed_of_division hdivision hne, if_neg (by simpa using hnil),
        parse_of_comma h.book_comma h.book_trimmed
          (isTrimmed_append_referenceTexts hrefs numbers trimmed hne) (by simp),
        parseDivided_append trimmed hne hspace hread hnil]

/-- **A text that is read as a citation with an address** can be written anew from its parts, and is read
as the same citation then, if its numbers are short enough to be read at all. -/
theorem parse_text_of_parse {raw : Text} {c : Citation} (h : parse raw = .ok c)
    (address : c.hasAddress = true)
    (fit : ∀ n ∈ c.references, (decimal n).length ≤ maxDigits) {blank : Text}
    (hblank : isBlank blank = true) :
    ({ c with raw := blank } : Citation).written = .ok ({ c with raw := blank } : Citation).text ∧
      parse ({ c with raw := blank } : Citation).text =
        .ok { c with raw := ({ c with raw := blank } : Citation).text } := by
  refine ⟨written_eq_ok fun n hn => isTooLong_eq_false (fit n hn), ?_⟩
  have htext : ({ c with raw := blank } : Citation).text = c.composed := by
    rw [text, if_pos hblank]
    rfl
  rw [htext]
  exact parse_composed (isRead_of_parse h address) fit

/-- A citation of the second side of leaf 45, with the end of a range and digits of another script in
the text that it was read from. -/
def shabbatComment : Citation where
  book := "Rashi".toList
  division := some "on Shabbat".toList
  references := [91, 3]
  raw := " Rashi ,on Shabbat ٤٥b:٣-46a".toList
  isDaf := true

/-- It is read from its text, and read again from the text that is made of its parts. -/
theorem parse_text_of_parse_shabbatComment :
    parse shabbatComment.raw = .ok shabbatComment ∧ shabbatComment.hasAddress = true ∧
      (∀ n ∈ shabbatComment.references, (decimal n).length ≤ maxDigits) ∧
      ({ shabbatComment with raw := [' '] } : Citation).written =
        .ok "Rashi, on Shabbat 45b:3".toList ∧
      parse ({ shabbatComment with raw := [' '] } : Citation).text =
        .ok { shabbatComment with raw := "Rashi, on Shabbat 45b:3".toList } := by
  have hparse : parse shabbatComment.raw = .ok shabbatComment := rfl
  have htext : ({ shabbatComment with raw := [' '] } : Citation).text =
      "Rashi, on Shabbat 45b:3".toList := by decide +kernel
  have hfit : ∀ n ∈ shabbatComment.references, (decimal n).length ≤ maxDigits := by decide +kernel
  have hblank : isBlank [' '] = true := by decide
  have haddress : shabbatComment.hasAddress = true := by decide
  obtain ⟨hwritten, hagain⟩ := parse_text_of_parse hparse haddress hfit hblank
  rw [htext] at hwritten hagain
  rw [htext]
  exact ⟨hparse, haddress, hfit, hwritten, hagain⟩

end HebrewCorpus.Citation
