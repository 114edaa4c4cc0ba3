import SassData.Proofs.Source.TokenSequences

/-!
# Cutting at a line break

No token goes past the end of a line but a selector, and a comment to the end of its line ends
there. So the tokens of a text are those in front of the line break and those behind it, cut as the
place is that the first ones lead to. Only a text that breaks off inside a token is no part of that,
and its tokens show it.
-/

namespace SassData.Source

set_option autoImplicit false

theorem isBoundary_lineBreak : IsBoundary '\n' :=
  ⟨by decide, by decide, by decide +kernel, by decide, by decide⟩

def Mode.afterAll (mode : Mode) (ts : List Token) : Mode := ts.foldl Mode.after mode

/-- Tokens that no style sheet has, or that none ends with: the beginning of a comment without end,
a character that begins no token, a selector whose block is still to come. -/
inductive Torn : List Token → Prop
  | comment (rest : List Token) : Torn (.symbol .slash :: .symbol .star :: rest)
  | unknown : Torn [.unknown]
  | selector (text : String) : Torn [.selector text]
  | cons {t : Token} {rest : List Token} (h : Torn rest) : Torn (t :: rest)

theorem tokens_lineBreak (mode : Mode) (y : List Char) : tokens mode ('\n' :: y) = tokens mode y :=
  tokens_of_blank rfl

theorem tokens_openComment_lineBreak {x : List Char} (h : IsBoundary.IsOpenComment x) (mode : Mode)
    (y : List Char) : tokens mode x = [] ∧ tokens mode (x ++ '\n' :: y) = tokens mode y := by
  constructor
  · have hend := IsBoundary.afterBlank?_openComment h List.not_mem_nil
    rw [List.append_nil] at hend
    exact tokens_of_blank hend
  · obtain ⟨z, rfl, hz⟩ := h
    have hall : ∀ d ∈ z, (d != '\n') = true := by
      intro d hd
      rw [bne_iff_ne]
      rintro rfl
      exact hz hd
    have hb : afterBlank? ('/' :: '/' :: z ++ '\n' :: y) = some ('\n' :: y) := by
      simp [afterBlank?, List.dropWhile_append_of_pos hall]
    rw [tokens_of_blank hb, tokens_lineBreak]

/-- A run that ends in front of something ends there whatever follows. -/
theorem span_append_of_ne_nil {p : Char → Bool} {x : List Char} (h : (x.span p).2 ≠ [])
    (y : List Char) : (x ++ y).span p = ((x.span p).1, (x.span p).2 ++ y) := by
  induction x with
  | nil => exact absurd rfl h
  | cons a x ih =>
    simp only [List.span_eq_takeWhile_dropWhile, Prod.mk.injEq, List.cons_append] at h ih ⊢
    cases ha : p a with
    | false => simp [ha]
    | true =>
      rw [List.dropWhile_cons_of_pos ha] at h
      simpa [ha] using ih h

theorem statementToken?_lineBreak {x rest : List Char} {t : Token}
    (h : statementToken? x = some (t, rest)) :
    (∀ y, statementToken? (x ++ '\n' :: y) = some (t, rest ++ '\n' :: y)) ∨
      ∃ text, t = .selector text ∧ rest = [] := by
  cases x with
  | nil => cases h
  | cons c more =>
    simp only [statementToken?] at h
    split at h
    · next hc =>
      obtain ⟨⟨name, left⟩, hn, ht⟩ := Option.map_eq_some_iff.mp h
      cases ht
      refine Or.inl fun y => ?_
      simp only [List.cons_append, statementToken?]
      rw [if_pos hc, isBoundary_lineBreak.spanName? more y, hn]
      rfl
    · next hc =>
      split at h
      · next hs =>
        cases h
        by_cases hrest : (more.span inSelector).2 = []
        · exact Or.inr ⟨_, rfl, hrest⟩
        · refine Or.inl fun y => ?_
          simp only [List.cons_append, statementToken?]
          rw [if_neg hc, if_pos hs, span_append_of_ne_nil hrest]
      · next hs =>
        have hword {word : List Char} (hw : '\n' ∉ word.tail) (y : List Char) :
            after? word (c :: (more ++ '\n' :: y)) =
              (after? word (c :: more)).map (· ++ '\n' :: y) :=
          IsBoundary.after?_cons hw c more y
        refine Or.inl fun y => ?_
        simp only [List.cons_append, statementToken?]
        rw [if_neg hc, if_neg hs, hword (by decide), hword (by decide +kernel)]
        split at h
        · next hd =>
          cases h
          rw [hd]
          rfl
        · next hd =>
          obtain ⟨left, he, ht⟩ := Option.map_eq_some_iff.mp h
          cases ht
          rw [hd, he]
          rfl

theorem blockToken?_lineBreak {x rest : List Char} {t : Token}
    (h : blockToken? x = some (t, rest)) (y : List Char) :
    blockToken? (x ++ '\n' :: y) = some (t, rest ++ '\n' :: y) := by
  have hword := isBoundary_lineBreak.spanWord? x y
  cases hw : spanWord? x with
  | some word =>
    rw [hw] at hword
    simp only [blockToken?, hw, hword, Option.map_some] at h ⊢
    cases h
    rfl
  | none =>
    rw [hw] at hword
    simp only [blockToken?, hw, hword, Option.map_none] at h ⊢
    split at h
    · cases h
      rfl
    · cases h

/-- Only a selector goes past the end of a line. -/
theorem token?_lineBreak {mode : Mode} {x rest : List Char} {t : Token}
    (h : mode.token? x = some (t, rest)) :
    (∀ y, mode.token? (x ++ '\n' :: y) = some (t, rest ++ '\n' :: y)) ∨
      ∃ text, t = .selector text ∧ rest = [] := by
  cases mode with
  | statement => exact statementToken?_lineBreak h
  | block => exact Or.inl (blockToken?_lineBreak h)
  | expression inBlock => exact Or.inl (isBoundary_lineBreak.exprToken?_append h)

theorem torn_openBlock {x z : List Char} (h : x = '/' :: '*' :: z) (hb : afterBlank? x = none)
    (mode : Mode) : Torn (tokens mode x) := by
  cases mode with
  | expression inBlock =>
    rw [tokens_openBlock h hb]
    exact .comment _
  | statement =>
    subst h
    rw [@tokens_of_none .statement _ hb rfl (by simp)]
    exact .unknown
  | block =>
    subst h
    rw [@tokens_of_none .block _ hb rfl (by simp)]
    exact .unknown

/-- In front of a line break a text is cut as by itself, and what follows is cut by the place its
tokens lead to, unless the text breaks off inside a token. -/
theorem tokens_append_lineBreak (mode : Mode) (x : List Char) :
    (∀ y, tokens mode (x ++ '\n' :: y) =
        tokens mode x ++ tokens (mode.afterAll (tokens mode x)) y) ∨
      Torn (tokens mode x) := by
  -- A blank, a comment or a token goes first; the mode behind it is that of the rest.
  induction hl : x.length using Nat.strongRecOn generalizing mode x with
  | ind length ih =>
  subst hl
  cases x with
  | nil => exact Or.inl fun y => tokens_lineBreak mode y
  | cons d x =>
  cases hb : afterBlank? (d :: x) with
  | some rest =>
    by_cases ho : IsBoundary.IsOpenComment (d :: x)
    · -- The comment would go on to the end of the text, but the line ends first.
      refine Or.inl fun y => ?_
      obtain ⟨hnil, hy⟩ := tokens_openComment_lineBreak ho mode y
      rw [hy, hnil]
      rfl
    · have hy (y : List Char) := (IsBoundary.afterBlank?_append hb y).resolve_right ho
      rw [tokens_of_blank hb]
      refine (ih rest.length (leaves_of_afterBlank? hb).length_lt mode rest rfl).imp_left ?_
      intro hcut y
      rw [tokens_of_blank (hy _), hcut]
  | none =>
    obtain hn | ⟨-, z, hz⟩ := isBoundary_lineBreak.afterBlank?_boundary hb
    · cases ht : mode.token? (d :: x) with
      | none =>
        rw [tokens_of_none hb ht (by simp)]
        exact Or.inr .unknown
      | some token =>
        obtain ⟨t, rest⟩ := token
        rw [tokens_of_token hb ht]
        obtain hy | ⟨text, rfl, rfl⟩ := token?_lineBreak ht
        · refine (ih rest.length (leaves_of_token? ht).length_lt (mode.after t) rest rfl).imp
            ?_ .cons
          intro hcut y
          rw [tokens_of_token (hn y) (hy y), hcut]
          rfl
        · exact Or.inr (.selector text)
    · exact Or.inr (torn_openBlock hz hb mode)

end SassData.Source
