import SassData.Proofs.Host.PrintedData
import SassData.Proofs.Source.TokenShapes

/-!
# Quoting and literals

A text that is put between marks gets a backslash before each mark inside it. Whether the result is
a string literal depends on the backslashes that stood there before: in front of a mark, and at the
end, they have to go off in pairs.
-/

namespace SassData

set_option autoImplicit false

namespace Text

def backslashes (text : List Char) : Nat := (text.reverse.takeWhile (· == '\\')).length

theorem backslashes_backslash (text : List Char) :
    backslashes (text ++ ['\\']) = backslashes text + 1 := by
  simp [backslashes]

theorem backslashes_of_ne (text : List Char) {c : Char} (h : c ≠ '\\') :
    backslashes (text ++ [c]) = 0 := by
  simp [backslashes, h]

/-- Directly before a delimiter, and at the end, an even number of backslashes stands, those of the
text in front included. -/
def EvenBehind (front : List Char) (delimiter : Char) (text : List Char) : Prop :=
  ∀ before after, text = before ++ after → (∀ c, after.head? = some c → c = delimiter) →
    backslashes (front ++ before) % 2 = 0

/-- Every run of backslashes directly before a delimiter or at the end is even. -/
def EvenRuns (delimiter : Char) (text : List Char) : Prop := EvenBehind [] delimiter text

section

variable {front text : List Char} {delimiter c : Char}

theorem evenBehind_nil : EvenBehind front delimiter [] ↔ backslashes front % 2 = 0 := by
  constructor
  · intro h
    simpa using h [] [] rfl nofun
  · intro h before after he _
    obtain ⟨rfl, rfl⟩ := List.append_eq_nil_iff.mp he.symm
    simpa using h

theorem evenBehind_cons :
    EvenBehind front delimiter (c :: text) ↔
      (c = delimiter → backslashes front % 2 = 0) ∧ EvenBehind (front ++ [c]) delimiter text := by
  constructor
  · intro h
    constructor
    · intro hc
      have hfront := h [] (c :: text) rfl fun d hd => (Option.some.inj hd).symm.trans hc
      simpa using hfront
    · intro before after he hafter
      have hbefore := h (c :: before) after (by rw [he, List.cons_append]) hafter
      simpa using hbefore
  · rintro ⟨hc, h⟩ before after he hafter
    cases before with
    | nil =>
      rw [List.nil_append] at he
      subst he
      simpa using hc (hafter c rfl)
    | cons b before =>
      obtain ⟨rfl, rfl⟩ := List.cons.inj he
      simpa using h before after rfl hafter

end

end Text

namespace Source

open Text (EvenBehind EvenRuns backslashes)

variable {mark c : Char} {front text : List Char}

/-- How the scan of an escaped text ends, with an even number of backslashes in front of it and with
an odd one, the last of which is still to be paired. -/
theorem afterString?_escape_behind (hm : Text.isMark mark = true) :
    (backslashes front % 2 = 0 →
      (afterString? mark (Text.escape [mark] text ++ [mark]) = some [] ↔
        '\n' ∉ text ∧ EvenBehind front mark text)) ∧
    (backslashes front % 2 = 1 →
      (afterString? mark ('\\' :: (Text.escape [mark] text ++ [mark])) = some [] ↔
        '\n' ∉ text ∧ EvenBehind front mark text)) := by
  have hmark := Text.ne_of_isMark hm
  induction text generalizing front with
  | nil =>
    rw [Text.escape_singleton_nil, Text.evenBehind_nil]
    constructor
    · intro h
      simp [afterString?, h]
    · intro h
      simp [afterString?, h, Ne.symm hmark.1, hmark.2]
  | cons c rest ih =>
    have hends : Text.escape [mark] rest ++ [mark] ≠ [] := by simp
    rw [Text.evenBehind_cons, Text.escape_singleton_cons]
    by_cases hc : mark = c
    · -- The mark is escaped, unless a backslash before it is already waiting for its pair.
      subst hc
      have hrest := (@ih (front ++ [mark])).1 (by rw [Text.backslashes_of_ne front hmark.1])
      simp only [if_true, List.cons_append, List.mem_cons, not_or, Ne.symm hmark.2,
        not_false_eq_true, true_and, forall_const]
      constructor
      · intro h
        rw [afterString?_escaped hmark.1, if_neg hmark.2, hrest]
        simp [h]
      · intro h
        rw [afterString?_escaped hmark.1, if_neg (by decide), afterString?_mark hends]
        simp [h]
    · simp only [if_neg hc, List.cons_append, Ne.symm hc, false_implies, true_and]
      by_cases hb : c = '\\'
      · subst hb
        have hcount := Text.backslashes_backslash front
        constructor
        · intro h
          rw [(@ih (front ++ ['\\'])).2 (by omega)]
          simp
        · intro h
          rw [afterString?_escaped hmark.1, if_neg (by decide),
            (@ih (front ++ ['\\'])).1 (by omega)]
          simp
      · have hrest := (@ih (front ++ [c])).1 (by rw [Text.backslashes_of_ne front hb])
        by_cases hn : c = '\n'
        · subst hn
          simp [afterString?_escaped hmark.1, afterString?_of_ne (Ne.symm hc) hb hends]
        · constructor
          · intro h
            rw [afterString?_of_ne (Ne.symm hc) hb hends, if_neg hn, hrest]
            simp [Ne.symm hn]
          · intro h
            rw [afterString?_escaped hmark.1, if_neg hn, hrest]
            simp [Ne.symm hn]

/-- An escaped text ends at the mark behind it exactly if it has no line break and even runs. -/
theorem afterString?_escape_iff (hm : Text.isMark mark = true) :
    afterString? mark (Text.escape [mark] text ++ [mark]) = some [] ↔
      '\n' ∉ text ∧ EvenRuns mark text :=
  (afterString?_escape_behind hm).1 rfl

end Source

namespace Text

/-- The mark that a text is put between: its own, if it has one. -/
def markFor (asked : Char) (text : List Char) : Char :=
  match unwrap? text with
  | some (mark, _) => mark
  | none => asked

variable {asked : Char} {text : List Char}

theorem delimiterFor_singleton : delimiterFor [asked] text = [markFor asked text] := by
  rw [delimiterFor, markFor]
  cases unwrap? text <;> rfl

theorem isMark_markFor (h : isMark asked = true) : isMark (markFor asked text) = true := by
  unfold markFor
  split
  · next mark inner hu => exact (enclosed_of_unwrap? hu).1
  · exact h

theorem toList_quote {s : String} :
    (quote s (String.singleton asked)).toList = markFor asked s.toList ::
      (escape [markFor asked s.toList] (payload s.toList) ++ [markFor asked s.toList]) := by
  simp [quote, wrap, delimiterFor_singleton]

theorem isStringLiteral_quote_iff (h : isMark asked = true) (s : String) :
    Source.IsStringLiteral (quote s (String.singleton asked)) ↔
      '\n' ∉ payload s.toList ∧ EvenRuns (markFor asked s.toList) (payload s.toList) := by
  have hm : isMark (markFor asked s.toList) = true := isMark_markFor h
  rw [← Source.afterString?_escape_iff hm]
  constructor
  · rintro ⟨mark, rest, -, ht, hr⟩
    rw [toList_quote] at ht
    obtain ⟨rfl, rfl⟩ := List.cons.inj ht
    exact hr
  · intro hr
    exact ⟨_, _, hm, toList_quote, hr⟩

end Text

end SassData
