import SassData.Engine.Builtin
import SassData.Engine.Evaluation
import SassData.Proofs.Host.PreservedMarks

/-!
# What new marks enclose

A sum with a quoted string and the quoting of one take the marks off, join the texts and put marks
around the whole. Quoting looks at the ends of what it is given, and there a text that only begins
and ends with marks of the other kind passes for one that is quoted: it keeps those, and they are
marks now and no longer part of the text. Any other text is enclosed as it is, and then the sum with
a third value does not depend on which two are added first.
-/

namespace SassData

set_option autoImplicit false

namespace Text

variable {mark : Char}

theorem mark?_quote (hm : isMark mark = true) (text : String) :
    mark? (quote text (String.singleton mark)) = some (markFor mark text.toList) := by
  rw [mark?, toList_quote, unwrap?_enclosed (isMark_markFor hm)]
  rfl

theorem markFor_of_not_quoted {text : String} (h : isQuoted text = false) :
    markFor mark text.toList = mark := by
  rw [markFor, unwrap?_eq_none_iff.mpr h]

theorem unquote_quote_eq_iff (hm : isMark mark = true) {text : String} (h : mark ∉ text.toList) :
    unquote (quote text (String.singleton mark)) = text ↔ isQuoted text = false := by
  have hreturned : unquote (quote text (String.singleton mark)) = returned (some mark) text :=
    unquote_quote (q := some mark) (by simpa using hm) text
  rw [hreturned]
  constructor
  · intro heq
    apply unwrap?_eq_none_iff.mp
    cases hu : unwrap? text.toList with
    | none => rfl
    | some found =>
      obtain ⟨own, inner⟩ := found
      obtain ⟨hown, htext⟩ := enclosed_of_unwrap? hu
      rw [← String.toList_inj, returned, hu, String.toList_ofList, htext] at heq
      exact absurd ((escape_singleton own inner).trans heq) (escape_ne_cons (ne_of_isMark hown).1 _)
  · intro hq
    exact returned_eq_self hq (by simpa using h)

end Text

open Text (isMark isQuoted mark? unquote)

/-- The value is a string in the mark that encloses exactly the text. -/
def Value.Encloses (mark : Char) (inner : String) (v : Value) : Prop :=
  ∃ text, v = .string text ∧ mark? text = some mark ∧ unquote text = inner

/-- A quoted string gets new marks: a value is added behind it, one that is no string is added in
front of it, or it is quoted again. The mark and the text that goes into it. -/
inductive Wraps (s : String) : Outcome Value → Char → String → Prop
  | behind {mark : Char} (h : mark? s = some mark) (v : Value) :
    Wraps s (.ok (Value.concat s v)) mark (unquote s ++ v.plainText)
  | before {mark : Char} (h : mark? s = some mark) (v : Value) (hv : ∀ t, v ≠ .string t) :
    Wraps s (Operation.apply .add v (.string s)) mark (v.css ++ unquote s)
  | again (h : isQuoted s = true) : Wraps s (Builtin.quote (.string s)) '"' (unquote s)

variable {s t inner : String} {mark other : Char} {result : Outcome Value}

theorem Value.concat_of_mark? (h : mark? s = some mark) (v : Value) :
    Value.concat s v =
      .string (Text.quote (unquote s ++ v.plainText) (String.singleton mark)) := by
  rw [Value.concat, h]

theorem Builtin.quote_string (s : String) :
    Builtin.quote (.string s) =
      .ok (.string (Text.quote (Text.unquote s) (String.singleton '"'))) := by
  have hmark : String.singleton '"' = "\"" := by decide
  rw [hmark]
  rfl

theorem Wraps.eq_quote (h : Wraps s result mark inner) :
    isMark mark = true ∧ result = .ok (.string (Text.quote inner (String.singleton mark))) := by
  cases h with
  | behind h v => exact ⟨(Text.toList_of_mark? h).1, by rw [Value.concat_of_mark? h]⟩
  | before h v hv =>
    refine ⟨(Text.toList_of_mark? h).1, ?_⟩
    cases v with
    | string text => exact absurd rfl (hv text)
    | _ => simp only [Operation.apply, Operation.onTexts, h]
  | again h => exact ⟨by decide, Builtin.quote_string s⟩

theorem encloses_quote_iff (hm : isMark mark = true) (h : mark ∉ inner.toList) :
    (Value.string (Text.quote inner (String.singleton mark))).Encloses mark inner ↔
      isQuoted inner = false := by
  constructor
  · rintro ⟨text, htext, -, hinner⟩
    cases htext
    exact (Text.unquote_quote_eq_iff hm h).mp hinner
  · intro hq
    refine ⟨_, rfl, ?_, (Text.unquote_quote_eq_iff hm h).mpr hq⟩
    rw [Text.mark?_quote hm, Text.markFor_of_not_quoted hq]

/-- The sum of two strings encloses both texts, and goes on as a string with the left mark. -/
theorem exists_concat (h : mark? s = some mark) {v : Value}
    (hmem : mark ∉ (unquote s ++ v.plainText).toList)
    (hq : isQuoted (unquote s ++ v.plainText) = false) :
    ∃ text, Value.concat s v = .string text ∧ mark? text = some mark ∧
      unquote text = unquote s ++ v.plainText := by
  rw [Value.concat_of_mark? h]
  exact (encloses_quote_iff (Text.toList_of_mark? h).1 hmem).mpr hq

theorem concat_assoc (hs : mark? s = some mark) (ht : mark? t = some other) (v : Value)
    (hleft : mark ∉ (unquote s ++ unquote t).toList)
    (hright : other ∉ (unquote t ++ v.plainText).toList)
    (hql : isQuoted (unquote s ++ unquote t) = false)
    (hqr : isQuoted (unquote t ++ v.plainText) = false) :
    (Operation.apply .add (.string s) (.string t) >>= fun st => Operation.apply .add st v) =
      (Operation.apply .add (.string t) v >>= fun tv => Operation.apply .add (.string s) tv) := by
  obtain ⟨st, hst, hmark, hinner⟩ := exists_concat hs (v := .string t) hleft hql
  obtain ⟨tv, htv, -, hinner'⟩ := exists_concat ht hright hqr
  have hl : Operation.apply .add (.string s) (.string t) = .ok (.string st) :=
    congrArg Except.ok hst
  have hr : Operation.apply .add (.string t) v = .ok (.string tv) := congrArg Except.ok htv
  rw [hl, hr]
  change Except.ok (Value.concat st v) = Except.ok (Value.concat s (.string tv))
  have hplain : (Value.string tv).plainText = unquote t ++ v.plainText := hinner'
  rw [Value.concat_of_mark? hmark, Value.concat_of_mark? hs, hinner, hplain, ← String.append_assoc]
  rfl

/-- A text without the mark that goes around it is enclosed as it is exactly if it is not quoted
itself. So quoting a string again leaves it equal in just these cases, and where the texts of two
neighbouring sums are such, it does not matter which sum is taken first. -/
theorem encloses_iff_not_quoted (s : String) :
    (∀ result mark inner, Wraps s result mark inner → mark ∉ inner.toList →
      ((∃ v, result = .ok v ∧ v.Encloses mark inner) ↔ isQuoted inner = false)) ∧
    ('"' ∉ (unquote s).toList →
      ((Builtin.quote (.string s) >>= fun v => v.equals (.string s)) = .ok true ↔
        isQuoted (unquote s) = false)) ∧
    ∀ t v mark other, mark? s = some mark → mark? t = some other →
      mark ∉ (unquote s ++ unquote t).toList → other ∉ (unquote t ++ v.plainText).toList →
      isQuoted (unquote s ++ unquote t) = false → isQuoted (unquote t ++ v.plainText) = false →
      (Operation.apply .add (.string s) (.string t) >>= fun st => Operation.apply .add st v) =
        (Operation.apply .add (.string t) v >>= fun tv => Operation.apply .add (.string s) tv) := by
  refine ⟨?_, ?_, ?_⟩
  · intro result mark inner hwraps hmem
    obtain ⟨hm, rfl⟩ := hwraps.eq_quote
    rw [← encloses_quote_iff hm hmem]
    constructor
    · rintro ⟨v, hv, hencloses⟩
      cases hv
      exact hencloses
    · intro hencloses
      exact ⟨_, rfl, hencloses⟩
  · intro hmem
    rw [Builtin.quote_string, ← Text.unquote_quote_eq_iff (by decide) hmem]
    change Except.ok (_ == _) = Except.ok true ↔ _
    rw [Except.ok.injEq, beq_iff_eq]
  · intro t v mark other hs ht hleft hright hql hqr
    exact concat_assoc hs ht v hleft hright hql hqr

/-- A letter and a number are enclosed as they are and a quoted letter is not. -/
theorem encloses_iff_not_quoted_column :
    (∃ v, .ok (Value.concat "\"w\"" (.number (.ofInt 3))) = Except.ok (ε := Failure) v ∧
      v.Encloses '"' "w3") ∧
    (¬ ∃ v, Builtin.quote (.string "\"'a'\"") = .ok v ∧ v.Encloses '"' "'a'") ∧
    (Builtin.quote (.string "\"w\"") >>= fun v => v.equals (.string "\"w\"")) = .ok true ∧
    (Operation.apply .add (.string "\"w\"") (.string "'-'") >>= fun st =>
        Operation.apply .add st (.number (.ofInt 3))) =
      (Operation.apply .add (.string "'-'") (.number (.ofInt 3)) >>= fun tv =>
        Operation.apply .add (.string "\"w\"") tv) := by
  have hletter := encloses_iff_not_quoted "\"w\""
  have hquoted := encloses_iff_not_quoted "\"'a'\""
  refine ⟨?_, ?_, ?_, ?_⟩
  · exact (hletter.1 _ _ _ (.behind (by decide) _) (by decide)).mpr (by decide)
  · intro hencloses
    have hnot := (hquoted.1 _ _ _ (.again (by decide)) (by decide)).mp hencloses
    exact absurd hnot (by decide)
  · exact (hletter.2.1 (by decide)).mpr (by decide)
  · exact hletter.2.2 "'-'" (.number (.ofInt 3)) '"' '\'' (by decide) (by decide) (by decide)
      (by decide) (by decide) (by decide)

/-- A quoted letter that is quoted again loses the marks it had. -/
theorem not_encloses_quoted :
    ¬ ∀ s result mark inner, Wraps s result mark inner → mark ∉ inner.toList →
      '\\' ∉ inner.toList → ∃ v, result = .ok v ∧ v.Encloses mark inner := by
  intro h
  obtain ⟨v, hv, text, rfl, hmark, -⟩ :=
    h "\"'a'\"" _ _ _ (.again (by decide)) (by decide) (by decide)
  rw [Builtin.quote_string] at hv
  cases hv
  exact absurd hmark (by decide)

end SassData
