import LedgerBench.Proofs.Json.Number
/-!
Texts and the tokens they spell.

The scanner reads a text character by character; `Spells` says the same of whole tokens: a text is
white space and the texts of its tokens, where a number or a word must not run into what follows it.
What is proved:
  1. `Scanner.finish_escapeChar`: whatever character a string holds, its escaped form is read as
     that character.
  2. `Scanner.finish_token`: the scanner reads the text of a token as that token.
  3. `Token.scan_of_spells`: so it reads every text as the tokens it spells.
-/

namespace LedgerBench

namespace Json

/-- White space between tokens. -/
def IsSpace (c : Char) : Prop := c = ' ' ∨ c = '\t' ∨ c = '\n' ∨ c = '\r'

namespace Token

/-- The text of a token. -/
def chars : Token → List Char
  | openObject => ['{']
  | closeObject => ['}']
  | openArray => ['[']
  | closeArray => [']']
  | colon => [':']
  | comma => [',']
  | null => ['n', 'u', 'l', 'l']
  | bool true => ['t', 'r', 'u', 'e']
  | bool false => ['f', 'a', 'l', 's', 'e']
  | number n => n.literal
  | string s => stringLiteral s

/-- Tokens that have a text. -/
def WellFormed : Token → Prop
  | number n => n.WellFormed
  | _ => True

/-- The token ends where the rest begins: a number or a word goes on for as long as it can. -/
def EndsBefore (rest : List Char) : Token → Prop
  | number _ => ∀ c ∈ rest.head?, isNumberChar c = false
  | null | bool _ => ∀ c ∈ rest.head?, c.isLower = false
  | _ => True

end Token

/-- A text spells some tokens: it is their texts in order, with white space before, between and
after them. -/
inductive Spells : List Char → List Token → Prop where
  | nil : Spells [] []
  | space {c : Char} {text : List Char} {tokens : List Token} (h : IsSpace c)
    (tail : Spells text tokens) :
      Spells (c :: text) tokens
  | token {t : Token} {text : List Char} {tokens : List Token} (h : t.WellFormed)
    (ends : t.EndsBefore text)
      (tail : Spells text tokens) : Spells (t.chars ++ text) (t :: tokens)

namespace Scanner

/-- The tokens of a text, the last first, where the scanner stands before it. -/
def finish (s : Scanner) (text : List Char) : Option (List Token) :=
  (text.foldlM Scanner.step s).bind Scanner.flush

theorem finish_cons (s : Scanner) (c : Char) (text : List Char) :
    s.finish (c :: text) = (s.step c).bind fun next => next.finish text := by
  unfold finish
  rw [List.foldlM_cons]
  cases s.step c <;> rfl

theorem finish_cons_of_step {s : Scanner} {c : Char} (next : Scanner) (h : s.step c = some next)
    (text : List Char) :
    s.finish (c :: text) = next.finish text := by
  rw [finish_cons, h]
  rfl

variable {tokens : List Token} {rest : List Char}

/-- A number or a word that is complete is a token, and the rest is read after it. -/
theorem finish_of_flush {s : Scanner} (hflush : s.flush = some tokens)
    (hstep : ∀ c ∈ rest.head?, s.step c = s.flush.bind fun tokens => Scanner.start tokens c) :
    s.finish rest = finish ⟨tokens, .between⟩ rest := by
  cases rest with
  | nil => exact hflush
  | cons c rest =>
    have hnext : s.step c = Scanner.start tokens c := by rw [hstep c rfl, hflush, Option.bind_some]
    rw [finish_cons, finish_cons, hnext]
    rfl

/-! ## Strings -/

theorem finish_char (items : List StringItem) {c : Char} (hquote : c ≠ '"') (hescape : c ≠ '\\')
    (hcontrol : ¬ c.toNat < 0x20) :
    finish ⟨tokens, .inString items⟩ (c :: rest) =
      finish ⟨tokens, .inString (.char c :: items)⟩ rest := by
  refine finish_cons_of_step _ ?_ rest
  simp only [step, hquote, hescape, hcontrol, if_false]

theorem finish_shortEscape (items : List StringItem) {c d : Char} (hc : c ≠ 'u')
    (h : shortEscape? c = some d) :
    finish ⟨tokens, .inString items⟩ ('\\' :: c :: rest) =
      finish ⟨tokens, .inString (.char d :: items)⟩ rest := by
  refine (finish_cons_of_step ⟨tokens, .inEscape items⟩ rfl _).trans (finish_cons_of_step _ ?_ rest)
  simp only [step, hc, if_false, h, Option.map_some]

/-- A control character without an escape of its own is written as a code unit. -/
theorem finish_unicodeEscape (items : List StringItem) {c : Char} (hc : c.toNat < 0x20) :
    finish ⟨tokens, .inString items⟩
        ('\\' :: 'u' :: '0' :: '0' :: Nat.digitChar (c.toNat / 16) :: Nat.digitChar
            (c.toNat % 16) :: rest) =
      finish ⟨tokens, .inString (.char c :: items)⟩ rest := by
  have hhigh := Text.hexValue?_digitChar (d := c.toNat / 16) (by omega)
  have hlow := Text.hexValue?_digitChar (d := c.toNat % 16) (by omega)
  have hunit : escapeItem (c.toNat / 16 * 16 + c.toNat % 16) = .char c := by
    have hsame : c.toNat / 16 * 16 + c.toNat % 16 = c.toNat := by omega
    have hplain : (decide (0xD800 ≤ c.toNat) && decide (c.toNat < 0xE000)) = false := by
      rw [decide_eq_false (by omega : ¬ 0xD800 ≤ c.toNat), Bool.false_and]
    rw [hsame, escapeItem, if_neg (by rw [hplain]; exact Bool.false_ne_true), Char.ofNat_toNat]
  calc finish ⟨tokens, .inString items⟩ ('\\' :: 'u' :: '0' :: '0' :: _ :: _ :: rest)
      = finish ⟨tokens, .inUnicode items 0 0⟩ ('0' :: '0' :: _ :: _ :: rest) := rfl
    _ = finish ⟨tokens, .inUnicode items 0 2⟩
          (Nat.digitChar (c.toNat / 16) :: Nat.digitChar (c.toNat % 16) :: rest) := rfl
    _ = finish ⟨tokens, .inUnicode items (c.toNat / 16) 3⟩
          (Nat.digitChar (c.toNat % 16) :: rest) := by
        refine finish_cons_of_step _ ?_ _
        simp [step, hhigh]
    _ = finish ⟨tokens, .inString (.char c :: items)⟩ rest := by
        refine finish_cons_of_step _ ?_ _
        simp only [step, hlow, if_true, hunit]

theorem finish_escapeChar (items : List StringItem) (c : Char) :
    finish ⟨tokens, .inString items⟩ (escapeChar c ++ rest) =
      finish ⟨tokens, .inString (.char c :: items)⟩ rest := by
  unfold escapeChar
  -- The seven characters with an escape of one letter, then the other control characters, then all
  -- others.
  split
  case h_8 hquote hescape _ _ _ _ _ =>
    split
    · exact finish_unicodeEscape items ‹_›
    · exact finish_char items hquote hescape ‹_›
  all_goals exact finish_shortEscape items (by decide) rfl

theorem finish_escaped (items : List StringItem) (s : List Char) :
    finish ⟨tokens, .inString items⟩ (s.flatMap escapeChar ++ rest) =
      finish ⟨tokens, .inString (s.reverse.map .char ++ items)⟩ rest := by
  induction s generalizing items with
  | nil => rfl
  | cons c s ih =>
    rw [List.flatMap_cons, List.append_assoc, finish_escapeChar, ih, List.reverse_cons,
      List.map_append, List.append_assoc]
    rfl

theorem joinItems_chars (tail s : List Char) :
    joinItems tail (s.map .char) = some (s.reverse ++ tail) := by
  induction s generalizing tail with
  | nil => rfl
  | cons c s ih =>
    rw [List.map_cons, joinItems, ih, List.reverse_cons, List.append_assoc]
    rfl

theorem finish_stringLiteral (s : Option String) :
    finish ⟨tokens, .between⟩ (stringLiteral s ++ rest) =
      finish ⟨.string s :: tokens, .between⟩ rest := by
  cases s with
  | none => rfl
  | some s =>
    have hclose : (⟨tokens, .inString (s.toList.reverse.map .char ++ [])⟩ : Scanner).step '"' =
        some ⟨.string (some s) :: tokens, .between⟩ := by
      rw [List.append_nil]
      simp only [step, if_true, joinItems_chars, List.reverse_reverse, List.append_nil,
        Option.map_some, String.ofList_toList]
    calc finish ⟨tokens, .between⟩ (stringLiteral (some s) ++ rest)
        = finish ⟨tokens, .inString []⟩ (s.toList.flatMap escapeChar ++ '"' :: rest) := by
          have hquoted : stringLiteral (some s) ++ rest =
              '"' :: (s.toList.flatMap escapeChar ++ '"' :: rest) := by
            show quote s.toList ++ rest = _
            rw [quote, List.cons_append, List.cons_append, List.append_assoc, List.singleton_append]
          rw [hquoted]
          exact finish_cons_of_step ⟨tokens, .inString []⟩ rfl _
      _ = finish ⟨.string (some s) :: tokens, .between⟩ rest := by
          rw [finish_escaped]
          exact finish_cons_of_step _ hclose rest

/-! ## Numbers -/

theorem eq_digitChar_of_isDigit {c : Char} (h : c.isDigit = true) :
    ∃ d : Fin 10, c = Nat.digitChar d := by
  have hrange : 48 ≤ c.toNat ∧ c.toNat ≤ 57 := by
    simpa [Char.isDigit, UInt32.le_iff_toNat_le] using h
  have hall : ∀ d : Fin 10, (Nat.digitChar d).toNat = 48 + d := by decide
  refine ⟨⟨c.toNat - 48, by omega⟩, Char.toNat_inj.mp ?_⟩
  rw [hall]
  show c.toNat = 48 + (c.toNat - 48)
  omega

theorem start_of_digit {c : Char} (h : c.isDigit = true ∨ c = '-') :
    start tokens c = some ⟨tokens, .inNumber [c]⟩ := by
  rcases h with h | rfl
  · obtain ⟨d, rfl⟩ := eq_digitChar_of_isDigit h
    match d with
    | 0 | 1 | 2 | 3 | 4 | 5 | 6 | 7 | 8 | 9 => rfl
  · rfl

theorem finish_numberChars (seen chars : List Char) (h : ∀ c ∈ chars, isNumberChar c = true) :
    finish ⟨tokens, .inNumber seen⟩ (chars ++ rest) =
      finish ⟨tokens, .inNumber (chars.reverse ++ seen)⟩ rest := by
  induction chars generalizing seen with
  | nil => rfl
  | cons c chars ih =>
    obtain ⟨hc, hchars⟩ := List.forall_mem_cons.mp h
    have hstep : (⟨tokens, .inNumber seen⟩ : Scanner).step c =
        some ⟨tokens, .inNumber (c :: seen)⟩ := by
      simp only [step, hc, if_true]
    rw [List.cons_append, finish_cons_of_step _ hstep, ih _ hchars, List.reverse_cons,
      List.append_assoc]
    rfl

theorem finish_literal {n : Number} (h : n.WellFormed)
    (hends : ∀ c ∈ rest.head?, isNumberChar c = false) :
    finish ⟨tokens, .between⟩ (n.literal ++ rest) =
      finish ⟨.number n :: tokens, .between⟩ rest := by
  obtain ⟨c, chars, hliteral, hc⟩ := Number.head_literal h
  have hall := Number.isNumberChar_of_mem_literal h
  rw [hliteral] at hall
  have hflush : flush ⟨tokens, .inNumber (c :: chars).reverse⟩ = some (.number n :: tokens) := by
    rw [← hliteral]
    simp only [flush, List.reverse_reverse, Number.ofLiteral?_literal h, Option.map_some]
  calc finish ⟨tokens, .between⟩ (n.literal ++ rest)
      = finish ⟨tokens, .inNumber [c]⟩ (chars ++ rest) := by
        rw [hliteral]
        exact finish_cons_of_step (s := ⟨tokens, .between⟩) _ (start_of_digit hc) _
    _ = finish ⟨tokens, .inNumber (c :: chars).reverse⟩ rest := by
        rw [finish_numberChars _ _ (List.forall_mem_cons.mp hall).2, List.reverse_cons]
    _ = finish ⟨.number n :: tokens, .between⟩ rest := by
        refine finish_of_flush hflush fun d hd => ?_
        simp only [step, hends d hd, Bool.false_eq_true, if_false]

/-! ## Words -/

/-- After its last letter a word is a token, where no letter follows. -/
theorem finish_word (word : List Char) {t : Token} (hword : wordToken? word.reverse = some t)
    (hends : ∀ c ∈ rest.head?, c.isLower = false) :
    finish ⟨tokens, .inWord word⟩ rest = finish ⟨t :: tokens, .between⟩ rest := by
  refine finish_of_flush ?_ fun d hd => ?_
  · simp only [flush, hword, Option.map_some]
  · simp only [step, hends d hd, Bool.false_eq_true, if_false]

/-! ## Tokens -/

/-- The scanner reads the text of a token as that token. -/
theorem finish_token {t : Token} (h : t.WellFormed) (hends : t.EndsBefore rest) :
    finish ⟨tokens, .between⟩ (t.chars ++ rest) = finish ⟨t :: tokens, .between⟩ rest := by
  cases t with
  | openObject => rfl
  | closeObject => rfl
  | openArray => rfl
  | closeArray => rfl
  | colon => rfl
  | comma => rfl
  | null => exact finish_word ['l', 'l', 'u', 'n'] rfl hends
  | bool value =>
    cases value with
    | true => exact finish_word ['e', 'u', 'r', 't'] rfl hends
    | false => exact finish_word ['e', 's', 'l', 'a', 'f'] rfl hends
  | number n => exact finish_literal h hends
  | string s => exact finish_stringLiteral s

theorem finish_space {c : Char} (h : IsSpace c) :
    finish ⟨tokens, .between⟩ (c :: rest) = finish ⟨tokens, .between⟩ rest := by
  rcases h with rfl | rfl | rfl | rfl <;> rfl

theorem finish_of_spells {text : List Char} {ts : List Token} (h : Spells text ts)
    (before : List Token) :
    finish ⟨before, .between⟩ text = some (ts.reverse ++ before) := by
  induction h generalizing before with
  | nil => rfl
  | space hspace tail ih => rw [finish_space hspace, ih]
  | token hwell hends tail ih =>
    rw [finish_token hwell hends, ih, List.reverse_cons, List.append_assoc]
    rfl

end Scanner

/-- A text is read as the tokens it spells. -/
theorem Token.scan_of_spells {text : List Char} {tokens : List Token} (h : Spells text tokens) :
    Token.scan text = some tokens := by
  have hfinish :
      (text.foldlM Scanner.step Scanner.initial).bind Scanner.flush = some (tokens.reverse ++ []) :=
    Scanner.finish_of_spells h []
  rw [Token.scan, hfinish, List.append_nil, Option.map_some, List.reverse_reverse]

end Json

end LedgerBench
