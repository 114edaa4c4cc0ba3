import SassData.Proofs.Source.TokenBoundaries
import SassData.Source.Lexeme

/-!
# Tokens of a text

The tokens of a text without their places. They do not depend on where the text stands, so a text
can be cut: in front of a boundary its tokens are followed by those of the rest. A comment that runs
to the end of its line swallows the boundary, and whatever else does not end before it leaves a mark
that no expression can have.
-/

namespace SassData.Source

set_option autoImplicit false

def tokens (mode : Mode) (text : List Char) : List Token :=
  (scanFrom mode 0 .start text).map Lexeme.token

theorem leaves_of_token? {mode : Mode} {text rest : List Char} {t : Token}
    (h : mode.token? text = some (t, rest)) : Leaves text rest := by
  cases mode with
  | statement => exact leaves_of_statementToken? h
  | block => exact leaves_of_blockToken? h
  | expression inBlock => exact leaves_of_exprToken? h

/-! ## Places do not matter -/

theorem map_token_scanFrom (mode : Mode) (n : Nat) (p q : Position) (text : List Char) :
    (scanFrom mode n p text).map Lexeme.token = (scanFrom mode n q text).map Lexeme.token := by
  induction text generalizing mode n p q with
  | nil => cases n <;> rfl
  | cons c more ih =>
    cases n with
    | succ n => exact ih mode n _ _
    | zero =>
      simp only [scanFrom]
      split
      · exact ih mode _ _ _
      · split
        · simp only [List.map_cons, ih _ _ (p.step c) (q.step c)]
        · rfl

theorem map_token_scanFrom_skip (mode : Mode) (n : Nat) (p : Position) (text : List Char) :
    (scanFrom mode n p text).map Lexeme.token = tokens mode (text.drop n) := by
  induction text generalizing n p with
  | nil => cases n <;> rfl
  | cons c more ih =>
    cases n with
    | succ n => exact ih n _
    | zero => exact map_token_scanFrom mode 0 p .start (c :: more)

theorem drop_length_sub {rest more : List Char} (h : rest <:+ more) :
    more.drop (more.length - rest.length) = rest := by
  obtain ⟨front, rfl⟩ := h
  simp

section Equations

variable {mode : Mode} {text rest : List Char}

theorem tokens_nil : tokens mode [] = [] := rfl

theorem tokens_of_blank (h : afterBlank? text = some rest) :
    tokens mode text = tokens mode rest := by
  have hl := leaves_of_afterBlank? h
  cases text with
  | nil => exact absurd rfl hl.2
  | cons c more =>
    rw [tokens, scanFrom, h]
    have hd : more.drop (more.length - rest.length) = rest := drop_length_sub hl.1
    exact (map_token_scanFrom_skip mode _ _ more).trans (by rw [hd])

theorem tokens_of_token {t : Token} (hb : afterBlank? text = none)
    (h : mode.token? text = some (t, rest)) :
    tokens mode text = t :: tokens (mode.after t) rest := by
  have hl := leaves_of_token? h
  cases text with
  | nil => exact absurd rfl hl.2
  | cons c more =>
    have hd : more.drop (more.length - rest.length) = rest := drop_length_sub hl.1
    rw [tokens, scanFrom, hb, h, List.map_cons, map_token_scanFrom_skip, hd]

theorem tokens_of_none (hb : afterBlank? text = none) (h : mode.token? text = none)
    (hne : text ≠ []) : tokens mode text = [.unknown] := by
  cases text with
  | nil => exact absurd rfl hne
  | cons c more =>
    rw [tokens, scanFrom, hb, h]
    rfl

end Equations

/-! ## Single symbols -/

/-- A character that can only be a symbol where an expression stands. -/
def isPlainSymbol (c : Char) : Bool :=
  !Text.isDigit c && !Text.isMark c && !Text.isNameStart c && !(c ∈ ['.', '-', '$', '#', '!'])

theorem exprToken?_plainSymbol {c : Char} (hc : isPlainSymbol c = true) (more : List Char) :
    exprToken? (c :: more) =
      (symbol? (c :: more)).map fun (symbol, rest) => (.symbol symbol, rest) := by
  simp only [isPlainSymbol, Bool.and_eq_true, Bool.not_eq_true', List.mem_cons, List.not_mem_nil,
    or_false, not_or, decide_eq_false_iff_not] at hc
  obtain ⟨⟨⟨hd, hm⟩, hs⟩, hp, hh, hv, hx, he⟩ := hc
  have hspan : spanDigits (c :: more) = ([], c :: more) := by
    simp [spanDigits, List.span_eq_takeWhile_dropWhile, hd]
  have hf : fraction? (c :: more) = none := by
    unfold fraction?
    split
    · next he => exact absurd (List.cons.inj he).1 hp
    · rfl
  have hn : number? (c :: more) = none := by simp [number?, mantissa?, hspan, hf]
  have hw : spanWord? (c :: more) = none := by simp [spanWord?, hh, hs]
  have hflag : flag? (c :: more) = none := by
    have (word : List Char) : after? ('!' :: word) (c :: more) = none := by
      simp [after?, Ne.symm he]
    simp [flag?, flagAt?, this]
  simp [exprToken?, hn, hm, hw, hv, hx, hflag]

/-! ## Cutting at a boundary -/

def isForeign : Token → Bool
  | .selector _ | .flag _ | .debug | .error | .unknown => true
  | .symbol .semicolon | .symbol .openBrace | .symbol .closeBrace => true
  | _ => false

theorem after_of_not_foreign {inBlock : Bool} {t : Token} (h : isForeign t = false) :
    (Mode.expression inBlock).after t = .expression inBlock := by
  unfold Mode.after
  split <;> simp_all [isForeign]

theorem tokens_of_exprToken {inBlock : Bool} {text rest : List Char} {t : Token}
    (hb : afterBlank? text = none) (h : exprToken? text = some (t, rest))
    (hf : isForeign t = false) :
    tokens (.expression inBlock) text = t :: tokens (.expression inBlock) rest := by
  have := @tokens_of_token (.expression inBlock) _ _ _ hb h
  rwa [after_of_not_foreign hf] at this

/-- Tokens that no expression has: a foreign one among them, or the beginning of a comment that has
no end, read as two operators. -/
inductive Broken : List Token → Prop
  | foreign {t : Token} {rest : List Token} (h : isForeign t = true) : Broken (t :: rest)
  | comment {rest : List Token} : Broken (.symbol .slash :: .symbol .star :: rest)
  | cons {t : Token} {rest : List Token} (h : Broken rest) : Broken (t :: rest)

theorem tokens_openBlock {inBlock : Bool} {text more : List Char}
    (h : text = '/' :: '*' :: more) (hb : afterBlank? text = none) :
    tokens (.expression inBlock) text =
      .symbol .slash :: .symbol .star :: tokens (.expression inBlock) more := by
  subst h
  have hslash : exprToken? ('/' :: '*' :: more) = some (.symbol .slash, '*' :: more) := by
    rw [exprToken?_plainSymbol (by decide)]
    rfl
  have hstar : exprToken? ('*' :: more) = some (.symbol .star, more) := by
    rw [exprToken?_plainSymbol (by decide)]
    rfl
  rw [tokens_of_exprToken hb hslash rfl, tokens_of_exprToken rfl hstar rfl]

/-- The text of an expression ends inside a comment that runs to the end of its line. -/
inductive EndsInComment : List Char → Prop
  | here {text : List Char} (h : IsBoundary.IsOpenComment text) : EndsInComment text
  | blank {text rest : List Char} (h : afterBlank? text = some rest) (hrest : EndsInComment rest) :
    EndsInComment text
  | token {text rest : List Char} {t : Token} (hb : afterBlank? text = none)
    (h : exprToken? text = some (t, rest)) (hf : isForeign t = false)
    (hrest : EndsInComment rest) : EndsInComment text

theorem tokens_openComment {x y : List Char} (h : IsBoundary.IsOpenComment x) (hy : '\n' ∉ y)
    (mode : Mode) : tokens mode (x ++ y) = tokens mode x := by
  have hend := IsBoundary.afterBlank?_openComment h List.not_mem_nil
  rw [List.append_nil] at hend
  rw [tokens_of_blank (IsBoundary.afterBlank?_openComment h hy), tokens_of_blank hend]

theorem EndsInComment.tokens_append {x : List Char} (h : EndsInComment x) {c : Char}
    (hc : IsBoundary c) (hn : c ≠ '\n') (inBlock : Bool) :
    tokens (.expression inBlock) (x ++ [c]) = tokens (.expression inBlock) x := by
  have hmem : '\n' ∉ [c] := by simpa using hn.symm
  induction h with
  | here h => exact tokens_openComment h hmem _
  | blank h _ ih =>
    rcases IsBoundary.afterBlank?_append h [c] with happend | hcomment
    · rw [tokens_of_blank happend, tokens_of_blank h, ih]
    · exact tokens_openComment hcomment hmem _
  | @token text rest t hb h hf _ ih =>
    have hblank : afterBlank? (text ++ [c]) = none := by
      cases text with
      | nil => cases h
      | cons d text => exact (hc.afterBlank?_boundary hb).elim (fun hb => hb []) And.left
    rw [tokens_of_exprToken hblank (hc.exprToken?_append h []) hf, tokens_of_exprToken hb h hf, ih]

/-- What stands in front of a boundary is cut there, or breaks, or ends in a comment that takes the
rest of the line along. -/
theorem tokens_boundary {c : Char} (hc : IsBoundary c) (inBlock : Bool) (x : List Char) :
    (∀ y, tokens (.expression inBlock) (x ++ c :: y) =
        tokens (.expression inBlock) x ++ tokens (.expression inBlock) (c :: y)) ∨
      (Broken (tokens (.expression inBlock) x) ∧
        Broken (tokens (.expression inBlock) (x ++ [c]))) ∨
      (EndsInComment x ∧ ∀ y, '\n' ∉ c :: y →
        tokens (.expression inBlock) (x ++ c :: y) = tokens (.expression inBlock) x) := by
  induction hl : x.length using Nat.strongRecOn generalizing x with
  | ind length ih =>
  subst hl
  cases x with
  | nil => exact Or.inl fun y => by simp [tokens_nil]
  | cons d x =>
  cases hb : afterBlank? (d :: x) with
  | some rest =>
    by_cases ho : IsBoundary.IsOpenComment (d :: x)
    · exact Or.inr (Or.inr ⟨.here ho, fun y hy => tokens_openComment ho hy _⟩)
    · have hy (y : List Char) := (IsBoundary.afterBlank?_append hb y).resolve_right ho
      rw [tokens_of_blank hb, tokens_of_blank (hy [c])]
      simp only [tokens_of_blank (hy (c :: _))]
      obtain hA | hB | ⟨he, hD⟩ := ih rest.length (leaves_of_afterBlank? hb).length_lt rest rfl
      · exact Or.inl hA
      · exact Or.inr (Or.inl hB)
      · exact Or.inr (Or.inr ⟨.blank hb he, hD⟩)
  | none =>
    obtain hn | ⟨hn, z, hz⟩ := hc.afterBlank?_boundary hb
    · cases ht : exprToken? (d :: x) with
      | none =>
        refine Or.inr (Or.inl ?_)
        have hnone := hc.exprToken?_boundary ht
        rw [@tokens_of_none (.expression inBlock) _ hb ht (by simp),
          @tokens_of_none (.expression inBlock) _ (hn []) hnone (by simp)]
        exact ⟨.foreign rfl, .foreign rfl⟩
      | some token =>
        obtain ⟨t, rest⟩ := token
        cases hf : isForeign t with
        | true =>
          refine Or.inr (Or.inl ?_)
          have hsome := hc.exprToken?_append ht []
          rw [@tokens_of_token (.expression inBlock) _ _ _ hb ht,
            @tokens_of_token (.expression inBlock) _ _ _ (hn []) hsome]
          exact ⟨.foreign hf, .foreign hf⟩
        | false =>
          have hy (y : List Char) := @tokens_of_exprToken inBlock _ _ _ (hn y)
            (hc.exprToken?_append ht y) hf
          have h0 := @tokens_of_exprToken inBlock _ _ _ hb ht hf
          rw [h0, hy []]
          obtain hA | ⟨hB, hB'⟩ | ⟨he, hD⟩ :=
            ih rest.length (leaves_of_exprToken? ht).length_lt rest rfl
          · exact Or.inl fun y => by rw [hy, hA, List.cons_append]
          · exact Or.inr (Or.inl ⟨hB.cons, hB'.cons⟩)
          · exact Or.inr (Or.inr ⟨.token hb ht hf he, fun y hn => by rw [hy, hD y hn]⟩)
    · have he : d :: x ++ [c] = '/' :: '*' :: (z ++ [c]) := by
        rw [hz]
        rfl
      rw [tokens_openBlock hz hb, tokens_openBlock he hn]
      exact Or.inr (Or.inl ⟨.comment, .comment⟩)

end SassData.Source
