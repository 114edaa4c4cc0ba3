import SassData.Proofs.Source.LexedTexts
import SassData.Proofs.Source.ReadLiterals

/-!
# The shape of a token

What is known of a token from its kind alone: a string is a complete literal, a word consists of
name characters, and a number is one that the reader of numerals makes.
-/

namespace SassData

set_option autoImplicit false

namespace Source

section

variable {mark c : Char} {text : List Char}

theorem afterString?_mark (h : text ≠ []) :
    afterString? mark (mark :: text) = some text := by
  cases text with
  | nil => exact absurd rfl h
  | cons d rest => simp [afterString?]

theorem afterString?_escaped (hm : mark ≠ '\\') :
    afterString? mark ('\\' :: c :: text) = if c = '\n' then none else afterString? mark text := by
  simp [afterString?, Ne.symm hm]

theorem afterString?_of_ne (hm : c ≠ mark) (hb : c ≠ '\\') (h : text ≠ []) :
    afterString? mark (c :: text) = if c = '\n' then none else afterString? mark text := by
  cases text with
  | nil => exact absurd rfl h
  | cons d rest => simp [afterString?, hm, hb]

end

/-- What is left behind the end of a string was not needed to find it, and no line break was. -/
theorem exists_of_afterString? {mark : Char} (hm : Text.isMark mark = true) {text rest : List Char}
    (h : afterString? mark text = some rest) :
    ∃ x, text = x ++ rest ∧ afterString? mark x = some [] ∧ '\n' ∉ x := by
  have hmark := Text.ne_of_isMark hm
  have hone : afterString? mark [mark] = some [] ∧ '\n' ∉ [mark] := by
    simp [afterString?, Ne.symm hmark.2]
  fun_induction afterString? mark text with
  | case1 => cases h
  | case2 c hc =>
    cases h
    obtain rfl := beq_iff_eq.mp hc
    exact ⟨[c], rfl, hone⟩
  | case3 => cases h
  | case4 c d more hc =>
    cases h
    obtain rfl := beq_iff_eq.mp hc
    exact ⟨[c], rfl, hone⟩
  | case5 => cases h
  | case6 => cases h
  | case7 c d more hc hn hb hd ih =>
    obtain ⟨x, rfl, hx, hbreak⟩ := ih h
    obtain rfl := beq_iff_eq.mp hb
    have hd : d ≠ '\n' := by simpa using hd
    refine ⟨'\\' :: d :: x, rfl, ?_, ?_⟩
    · rw [afterString?_escaped hmark.1, if_neg hd, hx]
    · simp [hbreak, Ne.symm hd]
  | case8 c d more hc hn hb ih =>
    obtain ⟨x, htext, hx, hbreak⟩ := ih h
    have hcn : c ≠ '\n' := by simpa using hn
    have hne : x ≠ [] := by
      rintro rfl
      cases hx
    refine ⟨c :: x, by rw [htext, List.cons_append], ?_, ?_⟩
    · rw [afterString?_of_ne (by simpa using hc) (by simpa using hb) hne, if_neg hcn, hx]
    · simp [hbreak, Ne.symm hcn]

theorem isNameChar_of_spanWord? {text word rest : List Char}
    (h : spanWord? text = some (word, rest)) : ∀ c ∈ word, Text.isNameChar c = true := by
  obtain ⟨hspan, -⟩ := spanWord?_eq_some_iff.mp h
  rw [List.span_eq_takeWhile_dropWhile] at hspan
  obtain ⟨rfl, -⟩ := Prod.mk.inj hspan
  exact List.all_eq_true.mp List.all_takeWhile

def Token.IsShaped : Token → Prop
  | .number n => ∃ text rest, number? text = some (n, rest)
  | .string text => IsStringLiteral text
  | .word text | .call text => ∀ c ∈ text.toList, Text.isNameChar c = true
  | .hash text => ∀ c ∈ text.toList, c = '#' ∨ c.isAlphanum = true
  | _ => True

theorem isShaped_exprToken? {text rest : List Char} {t : Token}
    (h : exprToken? text = some (t, rest)) : t.IsShaped := by
  unfold exprToken? at h
  split at h
  · cases h
  next c more =>
  split at h
  · next value left hn =>
    cases h
    exact ⟨_, _, hn⟩
  split at h
  · next hm =>
    obtain ⟨left, hl, h⟩ := Option.map_eq_some_iff.mp h
    cases h
    obtain ⟨x, rfl, hx, -⟩ := exists_of_afterString? hm hl
    have hlength : (c :: (x ++ rest)).length - rest.length = (c :: x).length := by
      rw [← List.cons_append, List.length_append, Nat.add_sub_cancel]
    refine ⟨c, x, hm, ?_, hx⟩
    rw [String.toList_ofList, hlength, ← List.cons_append, List.take_left]
  split at h
  · next word left hw =>
    cases h
    simpa [Token.IsShaped] using isNameChar_of_spanWord? hw
  · next word left _ hw =>
    cases h
    simpa [Token.IsShaped] using isNameChar_of_spanWord? hw
  split at h
  · obtain ⟨found, -, h⟩ := Option.map_eq_some_iff.mp h
    cases h
    trivial
  split at h
  · next hc =>
    rw [List.span_eq_takeWhile_dropWhile] at h
    simp only at h
    split at h <;> cases h
    intro d hd
    rw [String.toList_ofList, List.mem_cons] at hd
    rcases hd with rfl | hd
    · exact Or.inl (beq_iff_eq.mp hc)
    · exact Or.inr (List.all_eq_true.mp List.all_takeWhile d hd)
  split at h
  · cases h
    trivial
  · obtain ⟨found, -, h⟩ := Option.map_eq_some_iff.mp h
    cases h
    trivial

theorem isShaped_statementToken? {text rest : List Char} {t : Token}
    (h : statementToken? text = some (t, rest)) : t.IsShaped := by
  unfold statementToken? at h
  split at h
  · cases h
  split at h
  · obtain ⟨found, -, h⟩ := Option.map_eq_some_iff.mp h
    cases h
    trivial
  split at h
  · cases h
    trivial
  split at h
  · cases h
    trivial
  · obtain ⟨found, -, h⟩ := Option.map_eq_some_iff.mp h
    cases h
    trivial

theorem isShaped_blockToken? {text rest : List Char} {t : Token}
    (h : blockToken? text = some (t, rest)) : t.IsShaped := by
  unfold blockToken? at h
  split at h
  · next word left hw =>
    cases h
    simpa [Token.IsShaped] using isNameChar_of_spanWord? hw
  · split at h
    · cases h
      trivial
    · cases h

theorem isShaped_of_isToken {t : Token} (h : IsToken t) : t.IsShaped := by
  obtain ⟨mode, text, rest, h⟩ := h
  cases mode with
  | expression inBlock => exact isShaped_exprToken? h
  | statement => exact isShaped_statementToken? h
  | block => exact isShaped_blockToken? h

end Source

end SassData
