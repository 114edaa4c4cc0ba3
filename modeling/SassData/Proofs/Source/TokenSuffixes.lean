import Mathlib.Data.List.TakeDrop
import SassData.Source.Token

/-!
# What a token takes of a text

A token is taken off the front of a text: what is left is a shorter end of it. Some characters end
every token of an expression, so a token is the same with such a character and anything else behind
the text. Strings and comments look further and are left aside: of a string only what is complete
stays complete.
-/

namespace SassData.Source

set_option autoImplicit false

/-! ## Runs of characters -/

section Runs

variable {p : Char → Bool}

theorem span_append {x : List Char} (hx : ∀ a ∈ x, p a = true) (y : List Char) :
    (x ++ y).span p = (x ++ (y.span p).1, (y.span p).2) := by
  induction x with
  | nil => rfl
  | cons a x ih =>
    have ha : p a = true := hx a List.mem_cons_self
    have ih := ih fun b hb => hx b (List.mem_cons_of_mem a hb)
    simp only [List.span_eq_takeWhile_dropWhile, Prod.mk.injEq] at ih ⊢
    simp [ha, ih]

theorem span_append_cons {c : Char} (hc : p c = false) (x y : List Char) :
    (x ++ c :: y).span p = ((x.span p).1, (x.span p).2 ++ c :: y) := by
  induction x with
  | nil => simp [List.span_eq_takeWhile_dropWhile, hc]
  | cons a x ih =>
    simp only [List.span_eq_takeWhile_dropWhile, Prod.mk.injEq, List.cons_append] at ih ⊢
    cases ha : p a <;> simp [ha, ih]

theorem span_suffix (x : List Char) : (x.span p).2 <:+ x := by
  rw [List.span_eq_takeWhile_dropWhile]
  exact List.dropWhile_suffix p

theorem length_span_lt {x : List Char} (h : (x.span p).1 ≠ []) :
    (x.span p).2.length < x.length := by
  have happend : x.takeWhile p ++ x.dropWhile p = x := List.takeWhile_append_dropWhile
  have hsum := congrArg List.length happend
  simp only [List.span_eq_takeWhile_dropWhile, List.length_append] at h hsum ⊢
  have := List.length_pos_iff.mpr h
  omega

end Runs

/-! ## What is left -/

/-- What is left after a token: an end of the text without its first character. -/
def Leaves (text rest : List Char) : Prop := rest <:+ text.tail ∧ text ≠ []

namespace Leaves

theorem of_suffix {c : Char} {more rest : List Char} (h : rest <:+ more) :
    Leaves (c :: more) rest := ⟨h, List.cons_ne_nil c more⟩

theorem of_length {text rest : List Char} (h : rest <:+ text) (hl : rest.length < text.length) :
    Leaves text rest := by
  cases text with
  | nil => simp at hl
  | cons c more =>
    rcases List.suffix_cons_iff.mp h with rfl | h
    · simp at hl
    · exact of_suffix h

theorem trans {a b c : List Char} (h : Leaves a b) (hs : c <:+ b) : Leaves a c :=
  ⟨hs.trans h.1, h.2⟩

theorem suffix {text rest : List Char} (h : Leaves text rest) : rest <:+ text :=
  h.1.trans (List.tail_suffix text)

theorem length_lt {text rest : List Char} (h : Leaves text rest) : rest.length < text.length := by
  have hpos := List.length_pos_iff.mpr h.2
  have := h.1.length_le
  rw [List.length_tail] at this
  omega

end Leaves

theorem leaves_of_span {p : Char → Bool} {text : List Char} (h : (text.span p).1 ≠ []) :
    Leaves text (text.span p).2 :=
  .of_length (span_suffix text) (length_span_lt h)

theorem spanDigits_suffix (text : List Char) : (spanDigits text).2 <:+ text := span_suffix text

theorem leaves_of_fraction? {text digits rest : List Char}
    (h : fraction? text = some (digits, rest)) : Leaves text rest := by
  unfold fraction? at h
  split at h
  · next more =>
    simp only at h
    split at h
    · cases h
    · simp only [Option.some.injEq, Prod.mk.injEq] at h
      rw [← h.2]
      exact .of_suffix (spanDigits_suffix more)
  · cases h

theorem leaves_of_mantissa? {text digits rest : List Char} {places : Option Nat}
    (h : mantissa? text = some (digits, places, rest)) : Leaves text rest := by
  have hs := spanDigits_suffix text
  simp only [mantissa?] at h
  split at h
  · next fraction left hf =>
    simp only [Option.some.injEq, Prod.mk.injEq] at h
    rw [← h.2.2]
    have hl := leaves_of_fraction? hf
    exact .of_length (hl.suffix.trans hs) (Nat.lt_of_lt_of_le hl.length_lt hs.length_le)
  · split at h
    · cases h
    · next hne =>
      simp only [Option.some.injEq, Prod.mk.injEq] at h
      rw [← h.2.2]
      exact leaves_of_span fun hw => hne (List.isEmpty_iff.mpr hw)

theorem takeSign_suffix (text : List Char) : (Text.takeSign text).2 <:+ text := by
  unfold Text.takeSign
  split
  · exact List.suffix_cons _ _
  · exact List.suffix_cons _ _
  · exact List.suffix_rfl

theorem suffix_of_exponent? {isDigit : Char → Bool} {text rest : List Char} {e : Int}
    (h : Text.exponent? isDigit text = some (e, rest)) : rest <:+ text := by
  unfold Text.exponent? at h
  split at h
  · next c more =>
    simp only at h
    split at h
    · split at h
      · cases h
      · simp only [Option.some.injEq, Prod.mk.injEq] at h
        rw [← h.2]
        exact ((span_suffix _).trans (takeSign_suffix more)).trans (List.suffix_cons c more)
    · cases h
  · cases h

theorem spanUnit_suffix (text : List Char) : (spanUnit text).2 <:+ text := by
  unfold spanUnit
  split
  · exact List.suffix_cons _ _
  · exact span_suffix text

theorem leaves_of_number? {text rest : List Char} {n : Number}
    (h : number? text = some (n, rest)) : Leaves text rest := by
  simp only [number?, Option.bind_eq_bind, Option.bind_eq_some_iff, Option.pure_def] at h
  obtain ⟨⟨digits, places, left⟩, hm, h⟩ := h
  have hl := leaves_of_mantissa? hm
  simp only [Option.some.injEq, Prod.mk.injEq] at h
  obtain ⟨-, rfl⟩ := h
  refine hl.trans ((spanUnit_suffix _).trans ?_)
  split
  · next e left he => exact suffix_of_exponent? he
  · exact List.suffix_rfl
  · exact List.suffix_rfl

theorem suffix_of_afterString? {mark : Char} {text rest : List Char}
    (h : afterString? mark text = some rest) : rest <:+ text := by
  fun_induction afterString? mark text with
  | case1 => cases h
  | case2 c hc =>
    cases h
    exact List.nil_suffix
  | case3 => cases h
  | case4 c d more hc =>
    cases h
    exact List.suffix_cons c _
  | case5 => cases h
  | case6 => cases h
  | case7 c d more _ _ _ _ ih =>
    exact ((ih h).trans (List.suffix_cons d more)).trans (List.suffix_cons c _)
  | case8 c d more _ _ _ ih => exact (ih h).trans (List.suffix_cons c _)

/-- The word is the longest run of name characters: its hyphens are name characters as well. -/
theorem spanWord?_eq_some_iff {text word rest : List Char} :
    spanWord? text = some (word, rest) ↔
      text.span Text.isNameChar = (word, rest) ∧
        (text.takeWhile (· == '-')).length ≤ 2 ∧
          (text.dropWhile (· == '-')).head?.any Text.isNameStart = true := by
  have hd : text.drop (text.takeWhile (· == '-')).length = text.dropWhile (· == '-') := by
    have : (text.takeWhile (· == '-') ++ text.dropWhile (· == '-')).drop
        (text.takeWhile (· == '-')).length = text.dropWhile (· == '-') := List.drop_left
    rwa [List.takeWhile_append_dropWhile] at this
  simp only [spanWord?, hd]
  cases text.dropWhile (· == '-') with
  | nil => simp
  | cons c more =>
    by_cases h : (text.takeWhile (· == '-')).length ≤ 2 <;> cases hc : Text.isNameStart c <;>
      simp [h, hc]

theorem leaves_of_spanWord? {text word rest : List Char}
    (h : spanWord? text = some (word, rest)) : Leaves text rest := by
  obtain ⟨hs, -, hd⟩ := spanWord?_eq_some_iff.mp h
  have hne : (text.span Text.isNameChar).1 ≠ [] := by
    rw [List.span_eq_takeWhile_dropWhile]
    cases text with
    | nil => simp at hd
    | cons c more =>
      have hc : Text.isNameChar c = true := by
        by_cases h : c = '-'
        · rw [h]
          decide
        · rw [List.dropWhile_cons_of_neg (by simpa using h)] at hd
          exact Text.isNameChar_of_isNameStart hd
      simp [hc]
  have := leaves_of_span hne
  rwa [hs] at this

theorem leaves_of_spanName? {text name rest : List Char}
    (h : spanName? text = some (name, rest)) : Leaves text rest := by
  unfold spanName? at h
  split at h
  · next c more =>
    split at h
    · next hc =>
      have hne : ((c :: more).span Text.isNameChar).1 ≠ [] := by
        simp [List.span_eq_takeWhile_dropWhile, Text.isNameChar_of_isNameStart hc]
      have := leaves_of_span hne
      rwa [Option.some.inj h] at this
    · cases h
  · cases h

theorem after?_eq_some_iff {beginning text rest : List Char} :
    after? beginning text = some rest ↔ text = beginning ++ rest := by
  unfold after?
  constructor
  · intro h
    split at h
    · next hp =>
      cases h
      obtain ⟨left, rfl⟩ := List.isPrefixOf_iff_prefix.mp hp
      simp
    · cases h
  · rintro rfl
    simp

theorem leaves_of_after? {beginning text rest : List Char} (hb : beginning ≠ [])
    (h : after? beginning text = some rest) : Leaves text rest := by
  obtain ⟨c, more, rfl⟩ := List.exists_cons_of_ne_nil hb
  rw [after?_eq_some_iff.mp h]
  exact .of_suffix (List.suffix_append more rest)

theorem leaves_of_flagAt? {spelling : String} {flag f : Flag} {text rest : List Char}
    (hs : spelling.toList ≠ []) (h : flagAt? spelling flag text = some (f, rest)) :
    Leaves text rest := by
  unfold flagAt? at h
  split at h
  · next left ha =>
    split at h
    · cases h
    · simp only [Option.some.injEq, Prod.mk.injEq] at h
      exact leaves_of_after? hs (h.2 ▸ ha)
  · cases h

theorem leaves_of_flag? {text rest : List Char} {flag : Flag}
    (h : flag? text = some (flag, rest)) : Leaves text rest := by
  rcases Option.or_eq_some_iff.mp h with h | ⟨-, h⟩
  · exact leaves_of_flagAt? (by decide) h
  · exact leaves_of_flagAt? (by decide) h

theorem leaves_of_symbol? {text rest : List Char} {symbol : Symbol}
    (h : symbol? text = some (symbol, rest)) : Leaves text rest := by
  obtain ⟨⟨spelling, s⟩, hm, h⟩ := List.exists_of_findSome?_eq_some h
  obtain ⟨left, ha, h⟩ := Option.map_eq_some_iff.mp h
  have hne : ∀ entry ∈ spellings, entry.1.toList ≠ [] := by decide
  exact leaves_of_after? (hne _ hm) ((Prod.mk.inj h).2 ▸ ha)

theorem leaves_of_exprToken? {text rest : List Char} {t : Token}
    (h : exprToken? text = some (t, rest)) : Leaves text rest := by
  unfold exprToken? at h
  split at h
  · cases h
  next c more =>
  split at h
  · next n left hn =>
    simp only [Option.some.injEq, Prod.mk.injEq] at h
    rw [← h.2]
    exact leaves_of_number? hn
  split at h
  · obtain ⟨left, hs, h⟩ := Option.map_eq_some_iff.mp h
    simp only [Prod.mk.injEq] at h
    rw [← h.2]
    exact .of_suffix (suffix_of_afterString? hs)
  split at h
  · next word left hw =>
    simp only [Option.some.injEq, Prod.mk.injEq] at h
    rw [← h.2]
    exact (leaves_of_spanWord? hw).trans (List.suffix_cons _ _)
  · next word left hw _ =>
    simp only [Option.some.injEq, Prod.mk.injEq] at h
    rw [← h.2]
    exact leaves_of_spanWord? ‹_›
  split at h
  · obtain ⟨⟨name, left⟩, hn, h⟩ := Option.map_eq_some_iff.mp h
    simp only [Prod.mk.injEq] at h
    rw [← h.2]
    exact .of_suffix (leaves_of_spanName? hn).suffix
  split at h
  · simp only at h
    split at h
    · cases h
    · simp only [Option.some.injEq, Prod.mk.injEq] at h
      rw [← h.2]
      exact .of_suffix (span_suffix more)
  split at h
  · next flag left hf =>
    simp only [Option.some.injEq, Prod.mk.injEq] at h
    rw [← h.2]
    exact leaves_of_flag? hf
  · obtain ⟨⟨symbol, left⟩, hs, h⟩ := Option.map_eq_some_iff.mp h
    simp only [Prod.mk.injEq] at h
    rw [← h.2]
    exact leaves_of_symbol? hs

theorem leaves_of_statementToken? {text rest : List Char} {t : Token}
    (h : statementToken? text = some (t, rest)) : Leaves text rest := by
  unfold statementToken? at h
  split at h
  · cases h
  next c more =>
  split at h
  · obtain ⟨⟨name, left⟩, hn, h⟩ := Option.map_eq_some_iff.mp h
    simp only [Prod.mk.injEq] at h
    rw [← h.2]
    exact .of_suffix (leaves_of_spanName? hn).suffix
  split at h
  · simp only [Option.some.injEq, Prod.mk.injEq] at h
    rw [← h.2]
    exact .of_suffix (span_suffix more)
  split at h
  · next left ha =>
    simp only [Option.some.injEq, Prod.mk.injEq] at h
    rw [← h.2]
    exact leaves_of_after? (by decide) ha
  · obtain ⟨left, ha, h⟩ := Option.map_eq_some_iff.mp h
    simp only [Prod.mk.injEq] at h
    rw [← h.2]
    exact leaves_of_after? (by decide) ha

theorem leaves_of_blockToken? {text rest : List Char} {t : Token}
    (h : blockToken? text = some (t, rest)) : Leaves text rest := by
  unfold blockToken? at h
  split at h
  · next word left hw =>
    simp only [Option.some.injEq, Prod.mk.injEq] at h
    rw [← h.2]
    exact leaves_of_spanWord? hw
  split at h
  · cases h
    exact .of_suffix List.suffix_rfl
  · cases h

theorem suffix_of_afterBlock? {text rest : List Char} (h : afterBlock? text = some rest) :
    rest <:+ text := by
  fun_induction afterBlock? text with
  | case1 rest =>
    cases h
    exact (List.suffix_cons _ _).trans (List.suffix_cons _ _)
  | case2 c more _ ih => exact (ih h).trans (List.suffix_cons c more)
  | case3 => cases h

theorem leaves_of_afterBlank? {text rest : List Char} (h : afterBlank? text = some rest) :
    Leaves text rest := by
  unfold afterBlank? at h
  split at h
  · exact .of_suffix ((suffix_of_afterBlock? h).trans (List.suffix_cons _ _))
  · cases h
    exact .of_suffix ((List.dropWhile_suffix _).trans (List.suffix_cons _ _))
  · split at h
    · cases h
      exact .of_suffix List.suffix_rfl
    · cases h
  · cases h

end SassData.Source
