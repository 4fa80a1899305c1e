import HebrewCorpus.Citation.Basic
import HebrewCorpus.Proofs.Numeral.Decimal
import HebrewCorpus.Proofs.Record.Steps
import HebrewCorpus.Proofs.Schema.Labels
import HebrewCorpus.Proofs.Text.Trim

/-! # Numbers of citations

The numbers of a citation are written with colons between them, the first one as a leaf and a side if
it stands for these. What is written so is read as the same numbers, if they are short enough to be
read.

* **`referenceTexts_of_not_isDaf`**, **`referenceTexts_of_isDaf`**: how numbers are written.
* **`mem_addressSigns`**: with which signs.
* **`parseReferences_of_isDaf`**: a leaf and a side, written and read again.
* **`parseReferences_referenceTexts`**: the numbers of a citation, written and read again. -/

namespace HebrewCorpus.Citation

open Text

/-! ### Addresses as they are written -/

/-- The signs that addresses are written with are no white space, hyphens, commas or spaces. -/
theorem of_mem_addressSigns {c : Char} (h : c ∈ ':' :: AddressKind.englishSigns) :
    isBlankChar c = false ∧ c ≠ '-' ∧ c ≠ ',' ∧ c ≠ ' ' := by
  have hall : ∀ c ∈ ':' :: AddressKind.englishSigns,
      isBlankChar c = false ∧ c ≠ '-' ∧ c ≠ ',' ∧ c ≠ ' ' := forall_mem_of_all (by decide)
  exact hall c h

section Written

variable {c : Citation} {n : Nat} {ns : List Nat}

/-- The letter of the side that a number of sides stands for. -/
def sideLetter (n : Nat) : Char := if n % 2 = 1 then 'b' else 'a'

/-- Numbers without a leaf and a side are written one by one. -/
theorem referenceTexts_of_not_isDaf (hrefs : c.references = ns.map Int.ofNat)
    (hdaf : c.isDaf = false) : c.referenceTexts = ns.map decimalNat := by
  rw [referenceTexts, hrefs, hdaf]
  exact List.map_map

/-- A leaf and a side are written together. -/
theorem referenceTexts_of_isDaf (hrefs : c.references = (n :: ns).map Int.ofNat)
    (hdaf : c.isDaf = true) :
    c.referenceTexts = (decimalNat (n / 2) ++ [sideLetter n]) :: ns.map decimalNat := by
  have hside : (if (n : Int) % 2 = 0 then 'a' else 'b') = sideLetter n := by
    unfold sideLetter
    by_cases h : n % 2 = 1
    · rw [if_pos h, if_neg (by omega)]
    · rw [if_neg h, if_pos (by omega)]
  rw [referenceTexts, hrefs, hdaf]
  show (decimal (n / 2) ++ [if (n : Int) % 2 = 0 then 'a' else 'b']) :: _ = _
  rw [hside]
  exact congrArg _ List.map_map

/-- **An address is written with digits, sides and colons.** -/
theorem mem_addressSigns (hrefs : c.references = ns.map Int.ofNat) {x : Char}
    (h : x ∈ joinWith [':'] c.referenceTexts) : x ∈ ':' :: AddressKind.englishSigns := by
  have digits {m : Nat} (hx : x ∈ decimalNat m) : x ∈ ':' :: AddressKind.englishSigns :=
    List.mem_cons_of_mem _ (AddressKind.mem_englishSigns_of_isDigit (isDigit_of_mem_decimalNat hx))
  have numbers {ms : List Nat} {part : Text} (hp : part ∈ ms.map decimalNat) (hx : x ∈ part) :
      x ∈ ':' :: AddressKind.englishSigns := by
    obtain ⟨m, -, rfl⟩ := List.mem_map.1 hp
    exact digits hx
  rcases mem_joinWith h with hcolon | ⟨part, hpart, hx⟩
  · exact List.mem_singleton.1 hcolon ▸ List.mem_cons_self
  · cases hdaf : c.isDaf with
    | false => exact numbers (referenceTexts_of_not_isDaf hrefs hdaf ▸ hpart) hx
    | true =>
      cases ns with
      | nil =>
        rw [referenceTexts, hrefs, hdaf] at hpart
        cases hpart
      | cons n ns =>
        rw [referenceTexts_of_isDaf hrefs hdaf] at hpart
        rcases List.mem_cons.1 hpart with rfl | hpart
        · rcases List.mem_append.1 hx with hx | hx
          · exact digits hx
          · obtain rfl := List.mem_singleton.1 hx
            unfold sideLetter
            split <;> decide
        · exact numbers hpart hx

/-- An address with numbers is not empty. -/
theorem joinWith_referenceTexts_ne_nil (hrefs : c.references = ns.map Int.ofNat) (hne : ns ≠ []) :
    joinWith [':'] c.referenceTexts ≠ [] := by
  obtain ⟨n, ns, rfl⟩ := List.exists_cons_of_ne_nil hne
  obtain ⟨part, parts, hparts, hpart⟩ :
      ∃ part parts, c.referenceTexts = part :: parts ∧ part ≠ [] := by
    cases hdaf : c.isDaf with
    | false => exact ⟨_, _, referenceTexts_of_not_isDaf hrefs hdaf, decimalNat_ne_nil n⟩
    | true => exact ⟨_, _, referenceTexts_of_isDaf hrefs hdaf, by simp⟩
  obtain ⟨x, hx⟩ := List.exists_mem_of_ne_nil part hpart
  exact List.ne_nil_of_mem (mem_joinWith_of_mem [':'] (hparts ▸ List.mem_cons_self) hx)

end Written

/-! ### Addresses as they are read -/

/-- Numbers that are joined by colons are no address of a leaf and a side. -/
theorem dafParts?_joinWith (ns : List Nat) :
    dafParts? (joinWith [':'] (ns.map decimalNat)) = none := by
  have hsigns {c : Char} (hc : c ∈ joinWith [':'] (ns.map decimalNat)) : c ≠ 'a' ∧ c ≠ 'b' := by
    rcases mem_joinWith hc with hc | ⟨part, hpart, hc⟩
    · obtain rfl := List.mem_singleton.1 hc
      decide
    · obtain ⟨n, -, rfl⟩ := List.mem_map.1 hpart
      have hdigit := isDigit_of_mem_decimalNat hc
      constructor <;> (rintro rfl; exact absurd hdigit (by decide))
  rw [dafParts?]
  split
  · rfl
  · split
    · next side rest hd =>
      have hside := hsigns ((List.dropWhile_sublist isDecimalDigit).subset (hd ▸ List.mem_cons_self))
      rw [if_neg (not_or.2 hside)]
    · rfl

/-- No number of a list holds a colon. -/
theorem colon_not_mem_of_mem_map {ns : List Nat} {part : Text} (h : part ∈ ns.map decimalNat) :
    ':' ∉ part := by
  obtain ⟨n, -, rfl⟩ := List.mem_map.1 h
  exact colon_not_mem_decimalNat n

/-- Numbers that are joined by colons are told apart again. -/
theorem pieces_joinWith_decimalNat {ns : List Nat} (hne : ns ≠ []) :
    pieces ':' (joinWith [':'] (ns.map decimalNat)) = ns.map decimalNat :=
  List.splitOn_intercalate ':' (fun _ hpart => colon_not_mem_of_mem_map hpart) (by simpa using hne)

/-- So are numbers that start with a colon. -/
theorem pieces_joinWith_nil_cons (ns : List Nat) :
    pieces ':' (joinWith [':'] ([] :: ns.map decimalNat)) = [] :: ns.map decimalNat := by
  refine List.splitOn_intercalate ':' ?_ (List.cons_ne_nil _ _)
  rw [List.forall_mem_cons]
  exact ⟨List.not_mem_nil, fun _ hpart => colon_not_mem_of_mem_map hpart⟩

/-- A side that ends the first part of an address stands in front of the colons. -/
theorem joinWith_concat_cons (sep : Char) (front : Text) (c : Char) (parts : List Text) :
    joinWith [sep] ((front ++ [c]) :: parts) = front ++ c :: joinWith [sep] ([] :: parts) := by
  cases parts with
  | nil => rw [joinWith_singleton, joinWith_singleton]
  | cons part parts =>
    rw [joinWith_cons [sep] _ (List.cons_ne_nil _ _), joinWith_cons [sep] _ (List.cons_ne_nil _ _)]
    simp only [List.append_assoc, List.nil_append, List.cons_append]

/-- **A leaf, a side and the numbers behind it** are told apart again. -/
theorem dafParts?_append (leaf n : Nat) (ns : List Nat) :
    dafParts? (decimalNat leaf ++ sideLetter n :: joinWith [':'] ([] :: ns.map decimalNat)) =
      some (decimalNat leaf, decide (n % 2 = 1), ns.map decimalNat) := by
  have hdigits : ∀ c ∈ decimalNat leaf, isDecimalDigit c = true :=
    fun c hc => isDecimalDigit_of_mem_decimalNat hc
  have hnumbers : ((ns.map decimalNat).all fun n => !n.isEmpty && n.all isDecimalDigit) = true := by
    rw [List.all_map, List.all_eq_true]
    intro n _
    simp [all_isDecimalDigit_decimalNat, decimalNat_ne_nil]
  have hside : isDecimalDigit (sideLetter n) = false := by
    unfold sideLetter
    split <;> decide
  have hletter : sideLetter n = 'a' ∨ sideLetter n = 'b' := by
    unfold sideLetter
    split <;> simp
  have hsecond : decide (sideLetter n = 'b') = decide (n % 2 = 1) := by
    unfold sideLetter
    split <;> simp [*]
  rw [dafParts?, List.takeWhile_append_of_pos hdigits, List.dropWhile_append_of_pos hdigits,
    List.takeWhile_cons_of_neg (by simp [hside]), List.dropWhile_cons_of_neg (by simp [hside]),
    List.append_nil]
  simp only [List.isEmpty_eq_false_iff.2 (decimalNat_ne_nil leaf), hletter, pieces_joinWith_nil_cons,
    hnumbers, hsecond, if_true, Bool.false_eq_true, if_false]

/-- **The part of an address that is read**, when it is written with its signs alone: neither the
end of a range nor white space is cut off it. -/
theorem trim_cutAt_eq_self {token : Text} (h : ∀ c ∈ token, c ∈ ':' :: AddressKind.englishSigns) :
    trim (cutAt '-' token).1 = token := by
  have hhyphen : '-' ∉ token := fun hm => (of_mem_addressSigns (h '-' hm)).2.1 rfl
  rw [cutAt_eq_self hhyphen]
  exact trim_eq_self (isTrimmed_of_forall fun c hc => (of_mem_addressSigns (h c hc)).1)

/-- Numerals are read one by one, where each is. -/
theorem mapM_decimalNat {read : Text → Except NumeralFault Nat} {ns : List Nat}
    (h : ∀ n ∈ ns, read (decimalNat n) = .ok n) : (ns.map decimalNat).mapM read = .ok ns := by
  rw [List.mapM_map]
  exact (mapM_eq_ok (g := id) h).trans (congrArg _ (List.map_id ns))

/-- A numeral is a run of digits once it is trimmed. -/
theorem isNumber_decimalNat (n : Nat) :
    (!(trim (decimalNat n)).isEmpty && (trim (decimalNat n)).all isDigitSign) = true := by
  have hsign : ∀ c ∈ decimalNat n, isDigitSign c = true :=
    fun c hc => isDigitSign_of_isDigit (isDigit_of_mem_decimalNat hc)
  have htrim : trim (decimalNat n) = decimalNat n :=
    trim_eq_self (isTrimmed_of_forall fun c hc => isBlankChar_of_isDigitSign (hsign c hc))
  rw [htrim, List.all_eq_true.2 hsign, List.isEmpty_eq_false_iff.2 (decimalNat_ne_nil n)]
  rfl

/-- **A leaf, a side and the numbers behind it, written and read again.** The leaf must be short
enough to be read, but not the number that counts its sides. -/
theorem parseReferences_of_isDaf {c : Citation} {n : Nat} {ns : List Nat}
    (hrefs : c.references = (n :: ns).map Int.ofNat) (hdaf : c.isDaf = true)
    (leaf_fit : (decimalNat (n / 2)).length ≤ maxDigits)
    (fit : ∀ m ∈ ns, (decimalNat m).length ≤ maxDigits) :
    parseReferences (joinWith [':'] c.referenceTexts) = .ok (c.references, true) := by
  have hleaf : readDigits (decimalNat (n / 2)) = .ok (n / 2) := readDigits_decimalNat leaf_fit
  have hread : (ns.map decimalNat).mapM readDigits = .ok ns :=
    mapM_decimalNat fun m hm => readDigits_decimalNat (fit m hm)
  have hsides : n / 2 * 2 + (if decide (n % 2 = 1) = true then 1 else 0) = n := by
    by_cases h : n % 2 = 1
    · rw [decide_eq_true h, if_pos rfl]
      omega
    · rw [decide_eq_false h, if_neg Bool.false_ne_true]
      omega
  rw [parseReferences]
  simp only [trim_cutAt_eq_self fun x hx => mem_addressSigns hrefs hx,
    List.isEmpty_eq_false_iff.2 (joinWith_referenceTexts_ne_nil hrefs (List.cons_ne_nil n ns)),
    Bool.false_eq_true, if_false]
  rw [referenceTexts_of_isDaf hrefs hdaf, joinWith_concat_cons, dafParts?_append]
  simp only [hleaf, hread]
  show Except.ok ((((n / 2 * 2 + if decide (n % 2 = 1) = true then 1 else 0 : Nat) : Int) ::
    ns.map Int.ofNat, true)) = _
  rw [hsides, hrefs]
  rfl

/-- **The numbers of an address, written and read again.** -/
theorem parseReferences_referenceTexts {c : Citation} {ns : List Nat}
    (hrefs : c.references = ns.map Int.ofNat) (hne : ns ≠ [])
    (fit : ∀ n ∈ ns, (decimalNat n).length ≤ maxDigits) :
    parseReferences (joinWith [':'] c.referenceTexts) = .ok (c.references, c.isDaf) := by
  cases hdaf : c.isDaf with
  | false =>
    have hread : (ns.map decimalNat).mapM readNumeral = .ok ns :=
      mapM_decimalNat fun n hn => readNumeral_decimalNat (fit n hn)
    have hall : ((ns.map decimalNat).all fun p => !(trim p).isEmpty && (trim p).all isDigitSign) =
        true := by
      rw [List.all_map]
      exact List.all_eq_true.2 fun n _ => isNumber_decimalNat n
    rw [parseReferences]
    simp only [trim_cutAt_eq_self fun x hx => mem_addressSigns hrefs hx,
      List.isEmpty_eq_false_iff.2 (joinWith_referenceTexts_ne_nil hrefs hne), Bool.false_eq_true,
      if_false]
    rw [referenceTexts_of_not_isDaf hrefs hdaf, dafParts?_joinWith, pieces_joinWith_decimalNat hne]
    simp only [hall, hread, if_true]
    rw [hrefs]
    rfl
  | true =>
    obtain ⟨n, ns, rfl⟩ := List.exists_cons_of_ne_nil hne
    exact parseReferences_of_isDaf hrefs hdaf
      (length_decimalNat_half_le (fit n List.mem_cons_self))
      fun m hm => fit m (List.mem_cons_of_mem _ hm)

/-- The numbers that are read of an address are natural. -/
theorem exists_naturals_of_parseReferences {token : Text} {references : List Int} {isDaf : Bool}
    (h : parseReferences token = .ok (references, isDaf)) :
    ∃ ns : List Nat, references = ns.map Int.ofNat := by
  rw [parseReferences] at h
  dsimp only at h
  split at h
  · cases h
    exact ⟨[], rfl⟩
  · split at h
    · obtain ⟨leaf, -, h⟩ := exists_of_bind_eq_ok h
      obtain ⟨ns, -, h⟩ := exists_of_bind_eq_ok h
      cases h
      exact ⟨_ :: ns, rfl⟩
    · split at h
      · obtain ⟨ns, -, h⟩ := exists_of_bind_eq_ok h
        cases h
        exact ⟨ns, rfl⟩
      · cases h
        exact ⟨[], rfl⟩

end HebrewCorpus.Citation
