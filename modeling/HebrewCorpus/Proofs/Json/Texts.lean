import HebrewCorpus.Json.Reader
import HebrewCorpus.Json.Writer
import Mathlib.Data.List.Basic

/-! # Texts in JSON texts

What is written for a text is read back as that text. Only an escape by number can mean half a surrogate
pair.

* **`Json.foldl_quoted`**: a text in quotes is one token.
* **`Json.parse_render_texts`**: a written list of texts is read back.
* **`Json.escapesHalf_eq_false`**: a JSON text without escapes means characters only. -/

namespace HebrewCorpus.Json

/-! ### Characters -/

/-- A hexadecimal digit is read as what it was written for. -/
theorem hexValue?_hexDigit {n : Nat} (h : n < 16) : hexValue? (hexDigit n) = some n := by
  have hall : ∀ n < 16, hexValue? (hexDigit n) = some n := by decide
  exact hall n h

/-- The reader goes through a character that stands for itself. -/
theorem step_inText {c : Char} (hquote : c ≠ '"') (hback : c ≠ '\\') (hcontrol : ¬ c.toNat < 0x20)
    (codes : List Nat) (ts : List Token) :
    Lexer.step ⟨.inText codes, ts⟩ c = ⟨.inText (c.toNat :: codes), ts⟩ := by
  simp only [Lexer.step, if_neg hquote, if_neg hback, if_neg hcontrol]

/-- The reader goes through a hexadecimal digit. -/
theorem step_inEscape {n : Nat} (h : n < 16) (codes : List Nat) (missing value : Nat)
    (ts : List Token) :
    Lexer.step ⟨.inEscape codes missing value, ts⟩ (hexDigit n) =
      if missing ≤ 1 then ⟨.inText ((16 * value + n) :: codes), ts⟩
      else ⟨.inEscape codes (missing - 1) (16 * value + n), ts⟩ := by
  simp only [Lexer.step, hexValue?_hexDigit h]

/-- The reader goes through an escaped control character. -/
theorem foldl_control {c : Char} (h : c.toNat < 0x20) (codes : List Nat) (ts : List Token) :
    ("\\u00".toList ++ [hexDigit (c.toNat / 16), hexDigit (c.toNat % 16)]).foldl Lexer.step
      ⟨.inText codes, ts⟩ = ⟨.inText (c.toNat :: codes), ts⟩ := by
  have hopen : "\\u00".toList.foldl Lexer.step ⟨.inText codes, ts⟩ = ⟨.inEscape codes 2 0, ts⟩ := rfl
  have hvalue : 16 * (16 * 0 + c.toNat / 16) + c.toNat % 16 = c.toNat := by omega
  rw [List.foldl_append, hopen, List.foldl_cons, step_inEscape (by omega), if_neg (by decide),
    List.foldl_cons, step_inEscape (by omega), if_pos (by decide), hvalue, List.foldl_nil]

/-- **What stands for a character is read as that character.** -/
theorem foldl_escapeChar (c : Char) (codes : List Nat) (ts : List Token) :
    (escapeChar c).foldl Lexer.step ⟨.inText codes, ts⟩ = ⟨.inText (c.toNat :: codes), ts⟩ := by
  unfold escapeChar
  split
  case h_8 hquote hback _ _ _ _ _ =>
    split
    case isTrue h => exact foldl_control h codes ts
    case isFalse h => exact step_inText hquote hback h codes ts
  -- the characters with an escape of their own
  all_goals rfl

/-- No character is half a surrogate pair. -/
theorem isSurrogate_toNat (c : Char) : isSurrogate c.toNat = false := by
  have hvalid : c.toNat < 0xd800 ∨ 0xdfff < c.toNat ∧ c.toNat < 0x110000 := c.valid
  simp only [isSurrogate, Bool.and_eq_false_iff, decide_eq_false_iff_not]
  omega

/-! ### Texts -/

/-- The code points of a text make that text. -/
theorem ofGathered_toNat (s : Text) : ofGathered (s.map Char.toNat).reverse = s := by
  have hnone : ((s.map Char.toNat).reverse.any isSurrogate) = false := by
    simp [isSurrogate_toNat]
  rw [ofGathered, hnone, if_neg Bool.false_ne_true, List.foldl_reverse, List.foldr_map]
  simp

/-- The inside of a quoted text is gathered code point by code point. -/
theorem foldl_escaped (s : Text) (codes : List Nat) (ts : List Token) :
    (s.flatMap escapeChar).foldl Lexer.step ⟨.inText codes, ts⟩ =
      ⟨.inText ((s.map Char.toNat).reverse ++ codes), ts⟩ := by
  induction s generalizing codes with
  | nil => rfl
  | cons c s ih =>
    rw [List.flatMap_cons, List.foldl_append, foldl_escapeChar, ih]
    simp

/-- **A text in quotes is one token.** -/
theorem foldl_quoted (s : Text) (ts : List Token) :
    (quoted s).foldl Lexer.step ⟨.between, ts⟩ = ⟨.between, .text s :: ts⟩ := by
  have hopen : Lexer.step ⟨.between, ts⟩ '"' = ⟨.inText [], ts⟩ := rfl
  have hclose (codes : List Nat) :
      Lexer.step ⟨.inText codes, ts⟩ '"' = ⟨.between, .text (ofGathered codes) :: ts⟩ := rfl
  rw [quoted, List.cons_append, List.foldl_cons, hopen, List.foldl_append, foldl_escaped,
    List.append_nil, List.foldl_cons, List.foldl_nil, hclose, ofGathered_toNat]

/-! ### Lists of texts -/

/-- The tokens between the brackets of a list of texts. -/
def textTokens (ss : List Text) : List Token := (ss.map .text).intersperse (.mark ',')

/-- An array is written as its items in brackets. -/
theorem render_array (items : List Json) :
    render (.array items) = '[' :: Text.joinWith ", ".toList (renderItems items) ++ [']'] := rfl

/-- Texts are written in quotes. -/
theorem renderItems_texts (ss : List Text) : renderItems (ss.map .text) = ss.map quoted := by
  induction ss with
  | nil => rfl
  | cons s ss ih => exact congrArg (quoted s :: ·) ih

/-- Quoted texts with commas between them are read one by one. -/
theorem foldl_joined (ss : List Text) (ts : List Token) :
    (Text.joinWith ", ".toList (ss.map quoted)).foldl Lexer.step ⟨.between, ts⟩ =
      ⟨.between, (textTokens ss).reverse ++ ts⟩ := by
  induction ss generalizing ts with
  | nil => rfl
  | cons s ss ih =>
    cases ss with
    | nil => simpa [Text.joinWith, textTokens] using foldl_quoted s ts
    | cons t ss =>
      have hcomma : ", ".toList.foldl Lexer.step ⟨.between, .text s :: ts⟩ =
          ⟨.between, .mark ',' :: .text s :: ts⟩ := rfl
      have hjoin : Text.joinWith ", ".toList ((s :: t :: ss).map quoted) =
          quoted s ++ (", ".toList ++ Text.joinWith ", ".toList ((t :: ss).map quoted)) := by
        simp [Text.joinWith, List.intercalate]
      rw [hjoin, List.foldl_append, foldl_quoted, List.foldl_append, hcomma, ih]
      simp [textTokens]

/-- **The tokens of a written list of texts.** -/
theorem tokens_render_texts (ss : List Text) :
    tokens (render (.array (ss.map .text))) = .mark '[' :: textTokens ss ++ [.mark ']'] := by
  have hopen : Lexer.step ⟨.between, []⟩ '[' = ⟨.between, [.mark '[']⟩ := rfl
  have hclose (ts : List Token) : Lexer.step ⟨.between, ts⟩ ']' = ⟨.between, .mark ']' :: ts⟩ := rfl
  rw [render_array, renderItems_texts, tokens, List.cons_append, List.foldl_cons, hopen,
    List.foldl_append, foldl_joined, List.foldl_cons, List.foldl_nil, hclose]
  simp [Lexer.finish]

/-- The texts after a bracket or a comma join the items of the array that is open. -/
theorem foldlM_textTokens (s : Text) (ss : List Text) (items : List Json) {next : Expectation}
    (hnext : next = .value ∨ next = .valueOrEnd) :
    (textTokens (s :: ss)).foldlM Assembler.step ⟨[.array items], next⟩ =
      .ok ⟨[.array (((s :: ss).map .text).reverse ++ items)], .commaOrEnd⟩ := by
  have hfirst : Assembler.step ⟨[.array items], next⟩ (.text s) =
      .ok ⟨[.array (.text s :: items)], .commaOrEnd⟩ := by
    obtain rfl | rfl := hnext <;> rfl
  induction ss generalizing s items next with
  | nil => simpa [textTokens] using hfirst
  | cons t ss ih =>
    have hcomma : Assembler.step ⟨[.array (.text s :: items)], .commaOrEnd⟩ (.mark ',') =
        .ok ⟨[.array (.text s :: items)], .value⟩ := rfl
    have hrest := ih t (.text s :: items) (.inl rfl) rfl
    have htokens : textTokens (s :: t :: ss) = .text s :: .mark ',' :: textTokens (t :: ss) := rfl
    simp only [htokens, List.foldlM_cons, hfirst, hcomma, hrest, bind, Except.bind]
    simp

/-- **A written list of texts is read back.** -/
theorem parse_render_texts (ss : List Text) :
    parse (render (.array (ss.map .text))) = .ok (.array (ss.map .text)) := by
  have hopen : Assembler.step ⟨[], .value⟩ (.mark '[') = .ok ⟨[.array []], .valueOrEnd⟩ := rfl
  rw [parse, tokens_render_texts, List.cons_append, List.foldlM_cons, hopen]
  cases ss with
  | nil => rfl
  | cons s ss =>
    have hclose (items : List Json) :
        Assembler.step ⟨[.array items], .commaOrEnd⟩ (.mark ']') =
          .ok ⟨[], .nothing (.array items.reverse)⟩ := rfl
    simp only [List.foldlM_append, foldlM_textTokens s ss [] (.inr rfl), List.foldlM_cons,
      List.foldlM_nil, hclose, bind, Except.bind, pure, Except.pure]
    simp

/-! ### Halves of surrogate pairs -/

/-- Code points of characters hold no half by itself. -/
theorem hasHalf_eq_false {codes : List Nat} (h : ∀ code ∈ codes, isSurrogate code = false) :
    hasHalf codes = false := by
  induction codes using hasHalf.induct with
  | case1 => rfl
  | case2 code => exact h code List.mem_cons_self
  | case3 high low codes hpair ih =>
    rw [hasHalf, if_pos hpair]
    exact ih fun code hc => h code (List.mem_cons_of_mem _ (List.mem_cons_of_mem _ hc))
  | case4 high low codes hpair ih =>
    rw [hasHalf, if_neg hpair, h high List.mem_cons_self, Bool.false_or]
    exact ih fun code hc => h code (List.mem_cons_of_mem _ hc)

/-- **A reader that has met no escape**: what it has gathered of a text are characters. -/
def Lexer.MeetsNoEscape (l : Lexer) : Prop :=
  match l.mode with
  | .inText codes => ∀ code ∈ codes, isSurrogate code = false
  | .afterBackslash _ | .inEscape .. => False
  | _ => True

namespace Lexer

variable {l : Lexer} {c : Char}

/-- Such a reader ends no text with half a pair in it. -/
theorem MeetsNoEscape.endsHalf (h : l.MeetsNoEscape) (c : Char) : l.endsHalf c = false := by
  obtain ⟨mode, ts⟩ := l
  cases mode with
  | inText codes =>
    have hnone : hasHalf codes.reverse = false :=
      hasHalf_eq_false fun code hc => h code (List.mem_reverse.1 hc)
    simp only [Lexer.endsHalf, hnone, Bool.and_false]
  | _ => rfl

/-- No escape is met where a token begins. -/
theorem meetsNoEscape_start (ts : List Token) (c : Char) : (start ts c).MeetsNoEscape := by
  unfold start
  split_ifs
  · exact trivial
  · exact trivial
  · exact fun _ hc => absurd hc List.not_mem_nil
  · exact trivial
  · exact trivial

/-- **No escape is met in a character but the backslash.** -/
theorem MeetsNoEscape.step (h : l.MeetsNoEscape) (hc : c ≠ '\\') :
    (l.step c).MeetsNoEscape := by
  obtain ⟨mode, ts⟩ := l
  cases mode with
  | between => exact meetsNoEscape_start ts c
  | inText codes =>
    simp only [Lexer.step, if_neg hc]
    split_ifs
    · exact trivial
    · exact trivial
    · intro code hcode
      rcases List.mem_cons.1 hcode with rfl | hcode
      · exact isSurrogate_toNat c
      · exact h code hcode
  | afterBackslash codes => exact h.elim
  | inEscape codes missing value => exact h.elim
  | inScalar lexeme =>
    simp only [Lexer.step]
    split_ifs
    · exact trivial
    · exact meetsNoEscape_start _ c
  | failed => exact trivial

end Lexer

/-- **A JSON text without escapes means characters only.** -/
theorem escapesHalf_eq_false {s : Text} (h : '\\' ∉ s) : escapesHalf s = false := by
  have run (l : Lexer) (hl : l.MeetsNoEscape) : (s.foldl Lexer.watch (l, false)).2 = false := by
    induction s generalizing l with
    | nil => rfl
    | cons c s ih =>
      have hc : c ≠ '\\' := fun he => h (he ▸ List.mem_cons_self)
      have hwatch : Lexer.watch (l, false) c = (l.step c, false) := by
        rw [Lexer.watch, hl.endsHalf c, Bool.or_false]
      rw [List.foldl_cons, hwatch]
      exact ih (fun hs => h (List.mem_cons_of_mem _ hs)) (l.step c) (hl.step hc)
  exact run _ trivial

/-- A pair of halves is a character; the second half by itself is none. -/
example : escapesHalf "\"\\ud83d\\ude00\"".toList = false ∧
    escapesHalf "\"\\ude00\"".toList = true := by decide +kernel

end HebrewCorpus.Json
