import SassData.Proofs.Source.TokenSequences
import SassData.Value

/-!
# Texts in front of a boundary

What a piece of text is cut into when a boundary follows it, whatever follows that. Such pieces can
be put together: the pieces of a list or a map are those of its items with symbols between them.
Integers are read back from their numerals, and strings are taken as they are written.
-/

namespace SassData.Source

set_option autoImplicit false

/-- In front of a boundary the text is cut into the tokens. -/
def Lexes (text : List Char) (ts : List Token) : Prop :=
  ∀ (inBlock : Bool) (c : Char) (y : List Char), IsBoundary c →
    tokens (.expression inBlock) (text ++ c :: y) = ts ++ tokens (.expression inBlock) (c :: y)

/-! ## Symbols and blanks -/

theorem tokens_space (mode : Mode) (y : List Char) : tokens mode (' ' :: y) = tokens mode y :=
  tokens_of_blank rfl

theorem tokens_plainSymbol {c : Char} {symbol : Symbol} (hc : isPlainSymbol c = true)
    {inBlock : Bool} {y : List Char} (hb : afterBlank? (c :: y) = none)
    (hs : symbol? (c :: y) = some (symbol, y)) (hf : isForeign (.symbol symbol) = false) :
    tokens (.expression inBlock) (c :: y) =
      .symbol symbol :: tokens (.expression inBlock) y := by
  have ht : exprToken? (c :: y) = some (.symbol symbol, y) := by
    rw [exprToken?_plainSymbol hc, hs]
    rfl
  exact tokens_of_exprToken hb ht hf

theorem tokens_openParen (inBlock : Bool) (y : List Char) :
    tokens (.expression inBlock) ('(' :: y) =
      .symbol .openParen :: tokens (.expression inBlock) y :=
  tokens_plainSymbol (by decide) rfl rfl rfl

theorem tokens_closeParen (inBlock : Bool) (y : List Char) :
    tokens (.expression inBlock) (')' :: y) =
      .symbol .closeParen :: tokens (.expression inBlock) y :=
  tokens_plainSymbol (by decide) rfl rfl rfl

theorem tokens_openBracket (inBlock : Bool) (y : List Char) :
    tokens (.expression inBlock) ('[' :: y) =
      .symbol .openBracket :: tokens (.expression inBlock) y :=
  tokens_plainSymbol (by decide) rfl rfl rfl

theorem tokens_closeBracket (inBlock : Bool) (y : List Char) :
    tokens (.expression inBlock) (']' :: y) =
      .symbol .closeBracket :: tokens (.expression inBlock) y :=
  tokens_plainSymbol (by decide) rfl rfl rfl

theorem tokens_comma (inBlock : Bool) (y : List Char) :
    tokens (.expression inBlock) (',' :: y) = .symbol .comma :: tokens (.expression inBlock) y :=
  tokens_plainSymbol (by decide) rfl rfl rfl

theorem tokens_colon (inBlock : Bool) (y : List Char) :
    tokens (.expression inBlock) (':' :: y) = .symbol .colon :: tokens (.expression inBlock) y :=
  tokens_plainSymbol (by decide) rfl rfl rfl

theorem tokens_semicolon (y : List Char) :
    tokens (.expression false) (';' :: y) = .symbol .semicolon :: tokens .statement y := by
  have ht : exprToken? (';' :: y) = some (.symbol .semicolon, y) := by
    rw [exprToken?_plainSymbol (by decide)]
    rfl
  exact @tokens_of_token (.expression false) _ _ _ rfl ht

/-! ## One token -/

theorem afterBlank?_of_ne {d : Char} (hs : isSpace d = false) (hd : d ≠ '/') (x : List Char) :
    afterBlank? (d :: x) = none := by
  unfold afterBlank?
  split
  · next he => exact absurd (List.cons.inj he).1 hd
  · next he => exact absurd (List.cons.inj he).1 hd
  · next he =>
    cases he
    simp [hs]
  · rfl

theorem Lexes.of_token {d : Char} {x : List Char} {t : Token} (hs : isSpace d = false)
    (hd : d ≠ '/') (h : exprToken? (d :: x) = some (t, [])) (hf : isForeign t = false) :
    Lexes (d :: x) [t] := by
  intro inBlock c y hc
  have ht := hc.exprToken?_append h y
  rw [List.cons_append] at ht ⊢
  rw [tokens_of_exprToken (afterBlank?_of_ne hs hd _) ht hf]
  rfl

theorem lexes_null : Lexes "null".toList [.word "null"] :=
  .of_token (by decide) (by decide) rfl rfl

theorem lexes_bool (b : Bool) :
    Lexes (if b then "true" else "false").toList [.word (if b then "true" else "false")] := by
  cases b
  · exact .of_token (by decide) (by decide) rfl rfl
  · exact .of_token (by decide) (by decide) rfl rfl

def IsStringLiteral (text : String) : Prop :=
  ∃ mark rest, Text.isMark mark = true ∧ text.toList = mark :: rest ∧
    afterString? mark rest = some []

theorem lexes_string {text : String} (h : IsStringLiteral text) :
    Lexes text.toList [.string text] := by
  obtain ⟨mark, rest, hm, ht, hr⟩ := h
  have hn : isSpace mark = false ∧ mark ≠ '/' := by
    rcases Text.eq_of_isMark hm with rfl | rfl <;> decide
  rw [ht]
  refine .of_token hn.1 hn.2 ?_ rfl
  rw [IsBoundary.exprToken?_mark hm, hr, Option.map_some]
  simp [← ht]

/-! ## Numerals -/

theorem digit?_digitChar : ∀ d < 10, Text.digit? (Nat.digitChar d) = some d := by decide

theorem isDigit_of_mem_toDigits {n : Nat} {c : Char} (h : c ∈ Nat.toDigits 10 n) :
    Text.isDigit c = true := by
  induction n using Nat.strongRecOn with
  | ind n ih =>
    rw [Nat.toDigits_eq_if (by decide)] at h
    split at h
    · next hn =>
      rw [List.mem_singleton.mp h, Text.isDigit, digit?_digitChar n hn]
      rfl
    · next hn =>
      rcases List.mem_append.mp h with h | h
      · exact ih (n / 10) (by omega) h
      · rw [List.mem_singleton.mp h, Text.isDigit, digit?_digitChar _ (by omega)]
        rfl

theorem readDigits_toDigits (n : Nat) : Text.readDigits 0 (Nat.toDigits 10 n) = n := by
  induction n using Nat.strongRecOn with
  | ind n ih =>
    rw [Nat.toDigits_eq_if (by decide)]
    split
    · next hn => simp [Text.readDigits, digit?_digitChar n hn]
    · next hn =>
      have ih := ih (n / 10) (by omega)
      simp only [Text.readDigits] at ih
      simp only [Text.readDigits, List.foldl_append, List.foldl_cons, List.foldl_nil, ih,
        digit?_digitChar (n % 10) (by omega), Option.getD_some]
      omega

theorem number?_toDigits (n : Nat) :
    number? (Nat.toDigits 10 n) = some (.ofInt n, []) := by
  have hd : ∀ c ∈ Nat.toDigits 10 n, Text.isDigit c = true := fun c => isDigit_of_mem_toDigits
  have hs : spanDigits (Nat.toDigits 10 n) = (Nat.toDigits 10 n, []) := by
    have := span_append hd []
    simpa [spanDigits, List.span_eq_takeWhile_dropWhile] using this
  have hm : mantissa? (Nat.toDigits 10 n) = some (Nat.toDigits 10 n, none, []) := by
    simp [mantissa?, hs, fraction?]
  simp [number?, hm, Text.exponent?, spanUnit, readDigits_toDigits,
    List.span_eq_takeWhile_dropWhile, Number.ofInt, Number.ofMagnitude]

theorem exprToken?_toDigits (n : Nat) :
    exprToken? (Nat.toDigits 10 n) = some (.number (.ofInt n), []) := by
  obtain ⟨c, more, hc⟩ := List.exists_cons_of_ne_nil (Nat.toDigits_ne_nil (n := n) (b := 10))
  have hn := number?_toDigits n
  rw [hc] at hn ⊢
  simp [exprToken?, hn]

theorem digitChar_plain : ∀ d < 10, isSpace (Nat.digitChar d) = false ∧ Nat.digitChar d ≠ '/' ∧
    Text.isNameStart (Nat.digitChar d) = false ∧ Nat.digitChar d ≠ '-' := by
  decide

theorem exists_toDigits_cons (n : Nat) :
    ∃ d more, d < 10 ∧ Nat.toDigits 10 n = Nat.digitChar d :: more := by
  induction n using Nat.strongRecOn with
  | ind n ih =>
    rw [Nat.toDigits_eq_if (by decide)]
    split
    · next hn => exact ⟨n, [], hn, rfl⟩
    · next hn =>
      obtain ⟨d, more, hd, he⟩ := ih (n / 10) (by omega)
      exact ⟨d, more ++ [Nat.digitChar (n % 10)], hd, by rw [he, List.cons_append]⟩

theorem lexes_numeral (n : Nat) : Lexes (Nat.toDigits 10 n) [.number (.ofInt n)] := by
  have ht := exprToken?_toDigits n
  obtain ⟨d, more, hd, he⟩ := exists_toDigits_cons n
  obtain ⟨hs, hn, -, -⟩ := digitChar_plain d hd
  rw [he] at ht ⊢
  exact .of_token hs hn ht rfl

theorem lexes_negative (n : Nat) :
    Lexes ('-' :: Nat.toDigits 10 n) [.symbol .minus, .number (.ofInt n)] := by
  intro inBlock c y hc
  have hn := lexes_numeral n inBlock c y hc
  obtain ⟨d, more, hd, he⟩ := exists_toDigits_cons n
  obtain ⟨-, -, hs, hh⟩ := digitChar_plain d hd
  rw [he] at hn ⊢
  have ht (z : List Char) : exprToken? ('-' :: Nat.digitChar d :: z) =
      some (.symbol .minus, Nat.digitChar d :: z) := by
    have hm : number? ('-' :: Nat.digitChar d :: z) = none := rfl
    have hw : spanWord? ('-' :: Nat.digitChar d :: z) = none := by
      simp [spanWord?, hh, hs]
    have hf : flag? ('-' :: Nat.digitChar d :: z) = none := rfl
    simp [exprToken?, hm, hw, hf, Text.isMark]
    rfl
  rw [List.cons_append] at hn
  rw [List.cons_append, List.cons_append,
    tokens_of_exprToken (afterBlank?_of_ne (by decide) (by decide) _) (ht _) rfl, hn]
  rfl

/-! ## Several tokens -/

namespace Lexes

variable {x y : List Char} {ts us : List Token}

theorem parens (h : Lexes x ts) :
    Lexes ('(' :: (x ++ [')'])) (.symbol .openParen :: (ts ++ [.symbol .closeParen])) := by
  intro inBlock c z _
  have := h inBlock ')' (c :: z) isBoundary_closeParen
  simp only [List.cons_append, List.append_assoc, List.nil_append] at this ⊢
  rw [tokens_openParen, this, tokens_closeParen]

theorem brackets (h : Lexes x ts) :
    Lexes ('[' :: (x ++ [']'])) (.symbol .openBracket :: (ts ++ [.symbol .closeBracket])) := by
  intro inBlock c z _
  have := h inBlock ']' (c :: z) isBoundary_closeBracket
  simp only [List.cons_append, List.append_assoc, List.nil_append] at this ⊢
  rw [tokens_openBracket, this, tokens_closeBracket]

theorem spaced (hx : Lexes x ts) (hy : Lexes y us) : Lexes (x ++ ' ' :: y) (ts ++ us) := by
  intro inBlock c z hc
  have := hx inBlock ' ' (y ++ c :: z) isBoundary_space
  simp only [List.cons_append, List.append_assoc] at this ⊢
  rw [this, tokens_space, hy inBlock c z hc]

theorem empty : Lexes ['(', ')'] [.symbol .openParen, .symbol .closeParen] := by
  intro inBlock c z _
  simp only [List.cons_append, List.nil_append]
  rw [tokens_openParen, tokens_closeParen]

theorem comma (hx : Lexes x ts) (hy : Lexes y us) :
    Lexes (x ++ ',' :: ' ' :: y) (ts ++ .symbol .comma :: us) := by
  intro inBlock c z hc
  have := hx inBlock ',' (' ' :: (y ++ c :: z)) isBoundary_comma
  simp only [List.cons_append, List.append_assoc] at this ⊢
  rw [this, tokens_comma, tokens_space, hy inBlock c z hc]

theorem lastComma (hx : Lexes x ts) : Lexes (x ++ [',']) (ts ++ [.symbol .comma]) := by
  intro inBlock c z _
  have := hx inBlock ',' (c :: z) isBoundary_comma
  simp only [List.cons_append, List.append_assoc, List.nil_append] at this ⊢
  rw [this, tokens_comma]

theorem colon (hx : Lexes x ts) (hy : Lexes y us) :
    Lexes (x ++ ':' :: ' ' :: y) (ts ++ .symbol .colon :: us) := by
  intro inBlock c z hc
  have := hx inBlock ':' (' ' :: (y ++ c :: z)) isBoundary_colon
  simp only [List.cons_append, List.append_assoc] at this ⊢
  rw [this, tokens_colon, tokens_space, hy inBlock c z hc]

end Lexes

end SassData.Source
