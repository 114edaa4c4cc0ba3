import Mathlib.Algebra.Group.Nat.Even
import SassData.Proofs.Host.ReturnedData
import SassData.Proofs.Quotation.QuotedLiterals

/-!
# Quoted texts as strings of the grammar

A string of the grammar is a mark, a body and the same mark. The body is made of characters other
than the mark, a backslash and a line break, and of pairs of a backslash and any character that is
no line break. Quoting a text gives such a string exactly if no line break is in it and every
longest run of backslashes in front of a delimiter, and the one at the end, is even: a run that is
odd takes the backslash that quoting adds, or the closing mark, for its pair.
-/

namespace SassData

set_option autoImplicit false

/-! ## Strings of the grammar -/

namespace Source

inductive StringBody (mark : Char) : List Char → Prop
  | nil : StringBody mark []
  | plain {c : Char} {rest : List Char} (hmark : c ≠ mark) (hslash : c ≠ '\\') (hbreak : c ≠ '\n')
    (hrest : StringBody mark rest) : StringBody mark (c :: rest)
  | escaped {c : Char} {rest : List Char} (hbreak : c ≠ '\n') (hrest : StringBody mark rest) :
    StringBody mark ('\\' :: c :: rest)

/-- The whole text is one string of the grammar. -/
def MatchesString (text : List Char) : Prop :=
  ∃ mark body, Text.isMark mark = true ∧ text = mark :: (body ++ [mark]) ∧ StringBody mark body

variable {mark : Char} {text rest body : List Char}

theorem StringBody.afterString? (hm : mark ≠ '\\') (h : StringBody mark body)
    (rest : List Char) : afterString? mark (body ++ mark :: rest) = some rest := by
  induction h with
  | nil =>
    cases rest with
    | nil => simp [Source.afterString?]
    | cons d more => exact afterString?_mark (List.cons_ne_nil d more)
  | plain hmark hslash hbreak _ ih =>
    rw [List.cons_append, afterString?_of_ne hmark hslash (by simp), if_neg hbreak, ih]
  | escaped hbreak _ ih =>
    rw [List.cons_append, List.cons_append, afterString?_escaped hm, if_neg hbreak, ih]

/-- A text in which the scan of a string comes to an end begins with a body and the mark. -/
theorem exists_body_of_afterString? (h : afterString? mark text = some rest) :
    ∃ body, text = body ++ mark :: rest ∧ StringBody mark body := by
  fun_induction Source.afterString? mark text with
  | case1 => cases h
  | case2 c hc =>
    cases h
    rw [beq_iff_eq.mp hc]
    exact ⟨[], rfl, .nil⟩
  | case3 => cases h
  | case4 c d more hc =>
    cases h
    rw [beq_iff_eq.mp hc]
    exact ⟨[], rfl, .nil⟩
  | case5 => cases h
  | case6 => cases h
  | case7 c d more hc hn hb hd ih =>
    obtain ⟨body, rfl, hbody⟩ := ih h
    rw [beq_iff_eq.mp hb]
    exact ⟨'\\' :: d :: body, rfl, .escaped (by simpa using hd) hbody⟩
  | case8 c d more hc hn hb ih =>
    obtain ⟨body, hmore, hbody⟩ := ih h
    rw [hmore]
    exact ⟨c :: body, rfl, .plain (by simpa using hc) (by simpa using hb) (by simpa using hn) hbody⟩

theorem isStringLiteral_iff (s : String) : IsStringLiteral s ↔ MatchesString s.toList := by
  constructor
  · rintro ⟨mark, rest, hm, hs, hrest⟩
    obtain ⟨body, rfl, hbody⟩ := exists_body_of_afterString? hrest
    exact ⟨mark, body, hm, hs, hbody⟩
  · rintro ⟨mark, body, hm, hs, hbody⟩
    exact ⟨mark, _, hm, hs, hbody.afterString? (Text.ne_of_isMark hm).1 []⟩

end Source

/-! ## Runs of backslashes -/

namespace Text

/-- Every longest run of backslashes with a delimiter or the end behind it has an even length. -/
def HasEvenRuns (delimiter : Char) (text : List Char) : Prop :=
  ∀ before n after, text = before ++ List.replicate n '\\' ++ after →
    before.getLast? ≠ some '\\' → (after = [] ∨ after.head? = some delimiter) → Even n

variable {delimiter : Char} {text before : List Char} {n : Nat}

theorem backslashes_append_replicate (h : before.getLast? ≠ some '\\') :
    backslashes (before ++ List.replicate n '\\') = n := by
  induction n with
  | zero =>
    rw [List.replicate_zero, List.append_nil]
    cases hlast : before.getLast? with
    | none =>
      rw [List.getLast?_eq_none_iff.mp hlast]
      rfl
    | some c =>
      obtain ⟨front, rfl⟩ := List.getLast?_eq_some_iff.mp hlast
      apply backslashes_of_ne
      rintro rfl
      exact h hlast
  | succ n ih =>
    rw [List.replicate_succ', ← List.append_assoc, backslashes_backslash, ih]

theorem exists_run (text : List Char) :
    ∃ before n, text = before ++ List.replicate n '\\' ∧ before.getLast? ≠ some '\\' := by
  induction text using List.reverseRecOn with
  | nil => exact ⟨[], 0, rfl, by simp⟩
  | append_singleton front c ih =>
    by_cases hc : c = '\\'
    · obtain ⟨before, n, hfront, hlast⟩ := ih
      refine ⟨before, n + 1, ?_, hlast⟩
      rw [hfront, hc, List.replicate_succ', List.append_assoc]
    · refine ⟨front ++ [c], 0, by simp, ?_⟩
      simpa using hc

theorem evenRuns_iff : EvenRuns delimiter text ↔ HasEvenRuns delimiter text := by
  constructor
  · intro h before n after htext hlast hafter
    have hcount := h (before ++ List.replicate n '\\') after htext (by
      intro c hc
      rcases hafter with rfl | hhead
      · cases hc
      · exact Option.some.inj (hc.symm.trans hhead))
    rw [List.nil_append, backslashes_append_replicate hlast] at hcount
    exact Nat.even_iff.mpr hcount
  · intro h front after htext hafter
    obtain ⟨before, n, rfl, hlast⟩ := exists_run front
    rw [List.nil_append, backslashes_append_replicate hlast]
    apply Nat.even_iff.mp
    apply h before n after htext hlast
    cases after with
    | nil => exact Or.inl rfl
    | cons c rest => exact Or.inr (congrArg some (hafter c rfl))

/-! ## Quoted texts -/

/-- A quoted text is a delimiter, what the text encloses with a backslash before each delimiter, and
the delimiter again. The delimiter is the text's own mark, if it is quoted, and the one asked for if
not. It is one string of the grammar exactly if no line break is inside and all runs of backslashes
before a delimiter or the end are even. -/
theorem matchesString_quote_iff {asked : Char} (h : isMark asked = true) (text : String) :
    let delimiter := markFor asked text.toList
    let inner := payload text.toList
    let quoted := quote text (String.singleton asked)
    (isQuoted text = true → text.toList = delimiter :: (inner ++ [delimiter])) ∧
      (isQuoted text = false → delimiter = asked ∧ inner = text.toList) ∧
      quoted.toList = delimiter :: (backslashed (some delimiter) inner ++ [delimiter]) ∧
      isQuoted quoted = true ∧
      (Source.MatchesString quoted.toList ↔ '\n' ∉ inner ∧ HasEvenRuns delimiter inner) := by
  intro delimiter inner quoted
  have hm : isMark delimiter = true := isMark_markFor h
  have hquoted : quoted.toList =
      delimiter :: (backslashed (some delimiter) inner ++ [delimiter]) := by
    rw [toList_quote, escape_singleton]
  refine ⟨?_, ?_, hquoted, ?_, ?_⟩
  · intro hq
    obtain ⟨⟨mark, content⟩, hu⟩ := Option.isSome_iff_exists.mp hq
    simp only [delimiter, inner, markFor, payload, hu]
    exact (enclosed_of_unwrap? hu).2
  · intro hq
    simp only [delimiter, inner, markFor, payload, unwrap?_eq_none_iff.mpr hq]
    exact ⟨trivial, trivial⟩
  · rw [isQuoted, hquoted, unwrap?_enclosed hm]
    rfl
  · rw [← Source.isStringLiteral_iff, ← evenRuns_iff]
    exact isStringLiteral_quote_iff h text

/-- An apostrophe is escaped, and a backslash at the end takes the closing mark away. -/
theorem matchesString_quote_iff_apostrophe :
    isMark '\'' = true ∧ Source.MatchesString (quote "it's" "'").toList ∧
      ¬ Source.MatchesString (quote "it\\" "'").toList := by
  have hm : isMark '\'' = true := by decide
  have happlied := (matchesString_quote_iff hm "it's").2.2.2.2
  have hcut := (matchesString_quote_iff hm "it\\").2.2.2.2
  refine ⟨hm, ?_, ?_⟩
  · apply happlied.mpr
    refine ⟨by decide, ?_⟩
    intro before n after htext _ _
    cases n with
    | zero => exact Even.zero
    | succ n =>
      have hmem : '\\' ∈ payload "it's".toList := by
        rw [htext]
        simp
      exact absurd hmem (by decide)
  · intro hmatches
    have heven := (hcut.mp hmatches).2 ['i', 't'] 1 [] (by decide) (by decide) (Or.inl rfl)
    exact absurd heven (by decide)

end Text

end SassData
