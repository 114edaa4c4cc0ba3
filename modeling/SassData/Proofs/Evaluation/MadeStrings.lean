import SassData.Proofs.Literal.LiteralTexts
import SassData.Proofs.Session.SheetAnswers
import SassData.Proofs.Source.FormulaPrinting
import SassData.Proofs.Value.OneLineText

/-!
# Strings that evaluation makes

A string is a literal of its own, or a step of the evaluation has made it: put it between marks, or
left it bare. Marks are put around texts whose backslashes are taken as they are, and a bare text
may begin and end with a mark by accident. Where neither happens, all that looks like a string
literal in a value is one.
-/

namespace SassData

set_option autoImplicit false

open Text (isMark isQuoted markFor payload EvenRuns)
open Source (IsStringLiteral IsToken)

namespace Evaluation

/-- How a text is made: from another one, between marks of a kind or bare. -/
structure Making where
  mark : Option Char
  inner : String

namespace Making

def text (making : Making) : String :=
  match making.mark with
  | some mark => Text.quote making.inner (String.singleton mark)
  | none => making.inner

theorem text_quoted (inner : String) : text ⟨some '"', inner⟩ = Text.quote inner "\"" := by
  have hmark : String.singleton '"' = "\"" := by decide
  exact congrArg (Text.quote inner) hmark

/-- Between marks, no run of backslashes takes the one before a mark or before the end; bare, a text
that looks like a literal is one. -/
def IsSound (making : Making) : Prop :=
  match making.mark with
  | some mark => EvenRuns (markFor mark making.inner.toList) (payload making.inner.toList)
  | none => isQuoted making.inner = true → IsStringLiteral making.inner

variable {making : Making}

theorem isOneLine_text (hm : ∀ mark, making.mark = some mark → isMark mark = true)
    (h : Text.IsOneLine making.inner) : Text.IsOneLine making.text := by
  unfold text
  split
  · next mark hmark => exact Text.isOneLine_quote (hm mark hmark) h
  · exact h

theorem isSound_of_isStringLiteral (hm : ∀ mark, making.mark = some mark → isMark mark = true)
    (h : IsStringLiteral making.text) : making.IsSound := by
  unfold IsSound
  unfold text at h
  split
  · next mark hmark =>
    rw [hmark] at h
    exact ((Text.isStringLiteral_quote_iff (hm mark hmark) _).mp h).2
  · next hnone =>
    rw [hnone] at h
    exact fun _ => h

theorem IsSound.isStringLiteral (hm : ∀ mark, making.mark = some mark → isMark mark = true)
    (hline : Text.IsOneLine making.inner) (h : making.IsSound)
    (hq : isQuoted making.text = true) : IsStringLiteral making.text := by
  unfold IsSound at h
  unfold text at hq ⊢
  split
  · next mark hmark =>
    rw [hmark] at h
    exact (Text.isStringLiteral_quote_iff (hm mark hmark) _).mpr ⟨Text.not_mem_payload hline, h⟩
  · next hnone =>
    rw [hnone] at h hq
    exact h hq

end Making

/-- The text that an operator makes of two values: a sum with a string has the marks of the string,
the one on the left going first, and a difference and a quotient have none. -/
def Making.ofTexts? : BinaryOp → Value → Value → Option Making
  | .add, .string s, b => some ⟨Text.mark? s, Text.unquote s ++ b.plainText⟩
  | .add, a, .string t => some ⟨Text.mark? t, a.css ++ Text.unquote t⟩
  | .sub, a, b => some ⟨none, a.css ++ "-" ++ b.css⟩
  | .div, a, b => some ⟨none, a.css ++ "/" ++ b.css⟩
  | _, _, _ => none

/-- The text that a step makes, if the step is one of an operator between values that are not both
numbers or one of a function that adds or takes off marks. -/
def Step.making? : Step → Option Making
  | .binary _ (.number _) (.number _) => none
  | .binary op a b => Making.ofTexts? op a b
  | .invoke f (.string s :: _) =>
    if f.signature.name = "quote" then some ⟨some '"', Text.unquote s⟩
    else if f.signature.name = "unquote" then some ⟨none, Text.unquote s⟩
    else none
  | _ => none

theorem Step.making?_binary {op : BinaryOp} {a b : Value}
    (h : ∀ m n, a = .number m → b = .number n → False) :
    (Step.binary op a b).making? = Making.ofTexts? op a b := by
  unfold making?
  split
  · next hstep =>
    cases hstep
    exact (h _ _ rfl rfl).elim
  · next hstep =>
    cases hstep
    rfl
  · next hstep => cases hstep
  · next hbinary _ => exact absurd rfl (hbinary op a b)

end Evaluation

open Evaluation (Making Step)

theorem Text.isMark_of_mark? {s : String} {mark : Char} (h : mark? s = some mark) :
    isMark mark = true := by
  obtain ⟨⟨_, inner⟩, hu, rfl⟩ := Option.map_eq_some_iff.mp h
  exact (enclosed_of_unwrap? hu).1

theorem Evaluation.Step.isMark_of_making? {step : Step} {making : Making}
    (h : step.making? = some making) : ∀ mark, making.mark = some mark → isMark mark = true := by
  intro mark hm
  unfold making? at h
  split at h
  · cases h
  · unfold Making.ofTexts? at h
    split at h <;> cases h
    · exact Text.isMark_of_mark? hm
    · exact Text.isMark_of_mark? hm
    · cases hm
    · cases hm
  · split at h
    · cases h
      cases hm
      decide
    · split at h <;> cases h
      cases hm
  · cases h

namespace Operation

variable {op : BinaryOp} {a b c : Value}

theorem onNumbers_cases {m n : Number} (h : onNumbers op m n = .ok c) :
    (∃ p, c = .bool p) ∨ ∃ r, c = .number r := by
  have harithmetic {x : Outcome Number} (h : Value.number <$> x = .ok c) : ∃ r, c = .number r := by
    cases x with
    | error failure => cases h
    | ok r => exact ⟨r, (Except.ok.inj h).symm⟩
  have hordered (test : Number.Magnitude → Bool)
      (h : (do return .bool (test (← m.compare n)) : Outcome Value) = .ok c) :
      ∃ p, c = .bool p := by
    obtain ⟨d, -, h⟩ := Outcome.bind_eq_ok_iff.mp h
    exact ⟨_, (Except.ok.inj h).symm⟩
  cases op with
  | add | sub | mul | div | mod => exact Or.inr (harithmetic h)
  | lt | le | gt | ge => exact Or.inl (hordered _ h)
  | or | and | eq | ne => cases h

theorem onTexts_cases (h : onTexts op a b = .ok c) :
    ∃ making, Making.ofTexts? op a b = some making ∧ c = .string making.text := by
  unfold onTexts at h
  unfold Making.ofTexts?
  split at h
  · next s =>
    refine ⟨_, rfl, ?_⟩
    rw [← Except.ok.inj h, Value.concat, Making.text]
    cases Text.mark? s <;> rfl
  · next t hs =>
    refine ⟨⟨Text.mark? t, a.css ++ Text.unquote t⟩, ?_, (Except.ok.inj h).symm⟩
    cases a with
    | string s => exact absurd rfl (hs s)
    | _ => rfl
  · exact ⟨⟨none, a.css ++ "-" ++ b.css⟩, rfl, (Except.ok.inj h).symm⟩
  · exact ⟨⟨none, a.css ++ "/" ++ b.css⟩, rfl, (Except.ok.inj h).symm⟩
  · cases h

/-- An operator makes a truth value, a number or a text in the way of its step. -/
theorem apply_cases (h : apply op a b = .ok c) :
    (∃ p, c = .bool p) ∨ (∃ r, c = .number r) ∨
      ∃ making, (Step.binary op a b).making? = some making ∧ c = .string making.text := by
  unfold apply at h
  split at h
  · cases he : a.equals b with
    | error failure =>
      rw [he] at h
      cases h
    | ok p =>
      rw [he] at h
      exact Or.inl ⟨p, (Except.ok.inj h).symm⟩
  · obtain ⟨p, -, h⟩ := Outcome.bind_eq_ok_iff.mp h
    exact Or.inl ⟨_, (Except.ok.inj h).symm⟩
  · rcases onNumbers_cases h with hb | hn
    · exact Or.inl hb
    · exact Or.inr (Or.inl hn)
  · next hnumbers =>
    rw [Step.making?_binary hnumbers]
    exact Or.inr (Or.inr (onTexts_cases h))

end Operation

/-! ## Texts and values that are accounted for -/

theorem Text.exists_of_isQuoted {s : String} (h : isQuoted s = true) :
    ∃ mark inner, isMark mark = true ∧ s.toList = mark :: (inner ++ [mark]) := by
  obtain ⟨⟨mark, inner⟩, hu⟩ := Option.isSome_iff_exists.mp h
  obtain ⟨hm, ht⟩ := enclosed_of_unwrap? hu
  exact ⟨mark, inner, hm, ht⟩

namespace Evaluation

variable {S : Step → Prop}

/-- A text that looks like a string literal is one, or a step with the property has made it in a
way that is not sound. -/
def Accounts (S : Step → Prop) (text : String) : Prop :=
  isQuoted text = true → IsStringLiteral text ∨
    ∃ step making, S step ∧ step.making? = some making ∧ making.text = text ∧ ¬ making.IsSound

theorem accounts_of_first {text : String} {c : Char} {rest : List Char}
    (ht : text.toList = c :: rest) (hc : isMark c = false) : Accounts S text := by
  intro hq
  obtain ⟨mark, inner, hm, hquoted⟩ := Text.exists_of_isQuoted hq
  rw [ht] at hquoted
  rw [(List.cons.inj hquoted).1, hm] at hc
  cases hc

theorem accounts_of_last {text : String} {c : Char} {front : List Char}
    (ht : text.toList = front ++ [c]) (hc : isMark c = false) : Accounts S text := by
  intro hq
  obtain ⟨mark, inner, hm, hquoted⟩ := Text.exists_of_isQuoted hq
  rw [ht, ← List.cons_append] at hquoted
  have hlast := List.singleton_inj.mp (List.append_inj_right' hquoted rfl)
  rw [hlast, hm] at hc
  cases hc

end Evaluation

namespace Value

open Evaluation (Accounts)

variable {S : Step → Prop}

/-- Numbers have units that are reduced, every part is one line, and every text is accounted for. -/
def IsSpelled (S : Step → Prop) (v : Value) : Prop :=
  v.IsReduced ∧ v.PartsAre fun part =>
    Text.IsOneLine part.css ∧ ∀ text, part = .string text → Accounts S text

theorem isPartwise_isSpelled : IsPartwise (IsSpelled S) :=
  isPartwise_isReduced.and (isPartwise_partsAre ⟨by decide, nofun⟩)

theorem IsSpelled.isOneLine {v : Value} (h : v.IsSpelled S) : v.IsOneLine :=
  fun part hp => (h.2 part hp).1

theorem IsSpelled.isOneLine_css {v : Value} (h : v.IsSpelled S) : Text.IsOneLine v.css :=
  v.isOneLine_css h.isOneLine

theorem isOneLine_plainText {v : Value} (h : v.IsSpelled S) : Text.IsOneLine v.plainText := by
  cases v with
  | string text => exact Text.isOneLine_unquote h.isOneLine_css
  | _ => exact h.isOneLine_css

theorem isSpelled_null : (null : Value).IsSpelled S := isPartwise_isSpelled.null

theorem isSpelled_bool (b : Bool) : (bool b).IsSpelled S := by
  refine ⟨isReduced_of_numbers_eq_nil rfl, (partsAre_single rfl).mpr ⟨?_, nofun⟩⟩
  cases b <;> decide

theorem isSpelled_number {n : Number} (h : n.IsReduced) : (number n).IsSpelled S :=
  ⟨isReduced_number_iff.mpr h, (partsAre_single rfl).mpr ⟨Number.isOneLine_css h, nofun⟩⟩

theorem isSpelled_color {c : Color} (h : ∀ text, c.spelling = some text → Text.IsOneLine text) :
    (color c).IsSpelled S :=
  ⟨isReduced_of_numbers_eq_nil rfl, (partsAre_single rfl).mpr ⟨Color.isOneLine_css h, nofun⟩⟩

theorem isSpelled_string {text : String} (h : Text.IsOneLine text) (ha : Accounts S text) :
    (string text).IsSpelled S := by
  refine ⟨isReduced_of_numbers_eq_nil rfl, (partsAre_single rfl).mpr ⟨h, ?_⟩⟩
  rintro _ ⟨⟩
  exact ha

theorem isSpelled_making {step : Step} {making : Making} (hS : S step)
    (h : step.making? = some making) (hline : Text.IsOneLine making.inner) :
    (string making.text).IsSpelled S := by
  have hm := Step.isMark_of_making? h
  refine isSpelled_string (Making.isOneLine_text hm hline) fun hq => ?_
  by_cases hsound : making.IsSound
  · exact Or.inl (hsound.isStringLiteral hm hline hq)
  · exact Or.inr ⟨step, making, hS, h, rfl, hsound⟩

/-! ## Steps -/

theorem isOneLine_of_ofTexts? {op : BinaryOp} {a b : Value} {making : Making}
    (ha : a.IsSpelled S) (hb : b.IsSpelled S) (h : Making.ofTexts? op a b = some making) :
    Text.IsOneLine making.inner := by
  have hsigns : Text.IsOneLine "-" ∧ Text.IsOneLine "/" := by decide
  unfold Making.ofTexts? at h
  split at h
  · cases h
    have hs := Text.isOneLine_unquote ha.isOneLine_css
    exact Text.isOneLine_append.mpr ⟨hs, isOneLine_plainText hb⟩
  · cases h
    have ht := Text.isOneLine_unquote hb.isOneLine_css
    exact Text.isOneLine_append.mpr ⟨ha.isOneLine_css, ht⟩
  · cases h
    have hleft := Text.isOneLine_append.mpr ⟨ha.isOneLine_css, hsigns.1⟩
    exact Text.isOneLine_append.mpr ⟨hleft, hb.isOneLine_css⟩
  · cases h
    have hleft := Text.isOneLine_append.mpr ⟨ha.isOneLine_css, hsigns.2⟩
    exact Text.isOneLine_append.mpr ⟨hleft, hb.isOneLine_css⟩
  · cases h

theorem isSpelled_apply {op : BinaryOp} {a b : Value} (hS : S (.binary op a b))
    (ha : a.IsSpelled S) (hb : b.IsSpelled S) : (Operation.apply op a b).Ensures (IsSpelled S) := by
  intro c hc
  have hreduced := isReduced_apply ha.1 hb.1 c hc
  rcases Operation.apply_cases hc with ⟨p, rfl⟩ | ⟨r, rfl⟩ | ⟨making, hmaking, rfl⟩
  · exact isSpelled_bool p
  · exact isSpelled_number (isReduced_number_iff.mp hreduced)
  · refine isSpelled_making hS hmaking ?_
    unfold Step.making? at hmaking
    split at hmaking
    · cases hmaking
    · next hstep =>
      cases hstep
      exact isOneLine_of_ofTexts? ha hb hmaking
    · next hstep => cases hstep
    · cases hmaking

theorem isSpelled_applyUnary (op : UnaryOp) {v : Value} (h : v.IsSpelled S) :
    (Operation.applyUnary op v).IsSpelled S := by
  unfold Operation.applyUnary
  split
  · exact isSpelled_bool _
  · exact isSpelled_number (isReduced_number_iff.mp h.1).negated
  · have hminus : Text.IsOneLine "-" := by decide
    refine isSpelled_string (Text.isOneLine_append.mpr ⟨hminus, h.isOneLine_css⟩) ?_
    exact Evaluation.accounts_of_first String.toList_append (by decide)

theorem isSpelled_plainCall {name : String} {arguments : List Value} (hname : Text.IsOneLine name)
    (ha : ∀ v ∈ arguments, v.IsSpelled S) :
    (string (name ++ "(" ++ ", ".intercalate (arguments.map css) ++ ")")).IsSpelled S := by
  have hsigns : Text.IsOneLine "(" ∧ Text.IsOneLine ", " ∧ Text.IsOneLine ")" := by decide
  obtain ⟨hopen, hcomma, hclose⟩ := hsigns
  have htexts : ∀ text ∈ arguments.map css, Text.IsOneLine text := by
    intro text ht
    obtain ⟨v, hv, rfl⟩ := List.mem_map.mp ht
    exact (ha v hv).isOneLine_css
  refine isSpelled_string ?_ (Evaluation.accounts_of_last String.toList_append (by decide))
  simp only [Text.isOneLine_append]
  exact ⟨⟨⟨hname, hopen⟩, Text.isOneLine_intercalate hcomma htexts⟩, hclose⟩

end Value

/-! ## Leaves -/

def Leaf.IsSpelled (S : Step → Prop) : Leaf → Prop
  | .value v => v.IsSpelled S
  | .function name => Text.IsOneLine name

namespace Source

variable {S : Step → Prop}

theorem isOneLine_of_isNameChar {text : String} (h : ∀ c ∈ text.toList, Text.isNameChar c = true) :
    Text.IsOneLine text := by
  intro hn
  exact absurd (h _ hn) (by decide)

theorem isSpelled_wordValue {word : String} (h : ∀ c ∈ word.toList, Text.isNameChar c = true) :
    (Reading.wordValue word).IsSpelled S := by
  have hline := isOneLine_of_isNameChar h
  unfold Reading.wordValue
  split
  · exact Value.isSpelled_null
  split
  · exact Value.isSpelled_bool true
  split
  · exact Value.isSpelled_bool false
  split
  · next c hc =>
    refine Value.isSpelled_color fun text ht => ?_
    rw [Color.spelling_of_name hc] at ht
    exact Option.some.inj ht ▸ hline
  · refine Value.isSpelled_string hline fun hq => ?_
    obtain ⟨mark, inner, hm, ht⟩ := Text.exists_of_isQuoted hq
    have hname := h mark (by rw [ht]; exact List.mem_cons_self)
    have hapart : ∀ c, isMark c = true → Text.isNameChar c = false := by
      simp [isMark, Text.isNameChar]
    rw [hapart mark hm] at hname
    cases hname

theorem ofLeaves_isSpelled : OfLeaves (Leaf.IsSpelled S) where
  null := Value.isSpelled_null
  value ht hd := by
    have hshape := isShaped_of_isToken ht
    cases hd with
    | number n => exact Value.isSpelled_number (isReduced_of_isToken ht)
    | string text =>
      exact Value.isSpelled_string (isOneLine_of_isStringLiteral hshape) fun _ => Or.inl hshape
    | hash hc =>
      refine Value.isSpelled_color fun text hspelling => ?_
      rw [Color.spelling_of_hex hc] at hspelling
      cases hspelling
      intro hn
      rcases hshape _ hn with hn | hn
      · exact absurd hn (by decide)
      · exact absurd hn (by decide)
    | word word => exact isSpelled_wordValue hshape
  function ht := isOneLine_of_isNameChar (isShaped_of_isToken ht)

end Source

/-! ## Built-in functions -/

namespace Builtin

variable {S : Step → Prop}

theorem isSpelled_ofArithmetic {x : Except Number.ArithmeticFault Color}
    (h : ∀ c, x = .ok c → c.spelling = none) :
    Outcome.Ensures (Value.IsSpelled S) (do return .color (← Outcome.ofArithmetic x)) := by
  cases x with
  | error fault => exact Outcome.ensures_error _
  | ok c =>
    refine Outcome.ensures_ok (Value.isSpelled_color fun text ht => ?_)
    rw [h c rfl] at ht
    cases ht

theorem isSpelled_make {red green blue alpha : Number.Magnitude} {c : Color}
    (h : Color.make red green blue alpha none = .ok c) : c.spelling = none := by
  obtain ⟨_, _, _, _, -, rfl⟩ := Color.eq_of_make h
  rfl

theorem isSpelled_rgb (red green blue opacity : Value) :
    (rgb red green blue opacity).Ensures (Value.IsSpelled S) :=
  Outcome.ensures_bind fun _ => Outcome.ensures_bind fun _ => Outcome.ensures_bind fun _ =>
    Outcome.ensures_bind fun _ => isSpelled_ofArithmetic fun _ => isSpelled_make

theorem isSpelled_hsl (hue saturation lightness opacity : Value) :
    (hsl hue saturation lightness opacity).Ensures (Value.IsSpelled S) :=
  Outcome.ensures_bind fun _ => Outcome.ensures_bind fun _ => Outcome.ensures_bind fun _ =>
    Outcome.ensures_bind fun _ => isSpelled_ofArithmetic fun _ => isSpelled_make

theorem isSpelled_typeName (v : Value) : (Value.string v.typeName).IsSpelled S := by
  have hname : Text.IsOneLine v.typeName ∧ isQuoted v.typeName = false := by
    cases v <;> dsimp only [Value.typeName] <;> decide
  refine Value.isSpelled_string hname.1 fun hq => ?_
  rw [hname.2] at hq
  cases hq

/-- The units of a number have nothing in them that quoting would trip over. -/
theorem isSpelled_unitText {n : Number} (h : n.IsReduced) :
    (Value.string (Text.quote n.unitText "\"")).IsSpelled S := by
  have hclean : Host.IsClean n.unitText.toList :=
    ⟨Number.not_mem_unitText h '\\' (by decide), Number.not_mem_unitText h '\n' (by decide)⟩
  have hliteral := Host.isStringLiteral_quote (Or.inr rfl) hclean
  exact Value.isSpelled_string (Source.isOneLine_of_isStringLiteral hliteral)
    fun _ => Or.inl hliteral

theorem exists_of_assertString {v : Value} {name : Option String} {text : String}
    (h : v.assertString name = .ok text) : v = .string text := by
  cases v with
  | string s => rw [Except.ok.inj h]
  | _ => cases h

theorem exists_of_getD {arguments : List Value} {text : String}
    (h : arguments.getD 0 .null = .string text) : ∃ rest, arguments = .string text :: rest := by
  cases arguments with
  | nil => cases h
  | cons v rest => exact ⟨rest, congrArg (· :: rest) h⟩

theorem isSpelled_body {f : Function} (hf : f ∈ functions) {arguments : List Value}
    (hS : S (.invoke f arguments)) (ha : ∀ v ∈ arguments, v.IsSpelled S) {v : Value}
    (hv : f.body arguments >>= Reply.awaited = .ok (.value v)) : v.IsSpelled S := by
  have hP : Value.IsPartwise (Value.IsSpelled S) := Value.isPartwise_isSpelled
  have hfirst := getD_keeps hP ha 0
  have hands := hands_of_body hf hv
  generalize hname : f.signature.name = name at hands
  cases hands with
  | rgb _ _ _ _ hv => exact isSpelled_rgb _ _ _ _ v hv
  | hsl _ _ _ _ hv => exact isSpelled_hsl _ _ _ _ v hv
  | mapGet _ _ hv => exact mapGet_ensures hP hfirst _ _ v hv
  | nth _ hv => exact nth_ensures hP hfirst _ v hv
  | length n hv => exact hv ▸ Value.isSpelled_number (Number.isReduced_ofInt n)
  | typeOf value hv => exact Except.ok.inj hv ▸ isSpelled_typeName value
  | unit hv =>
    obtain ⟨n, hn, hv⟩ := Outcome.bind_eq_ok_iff.mp hv
    cases hv
    generalize arguments.getD 0 .null = first at hfirst hn
    cases first with
    | number m =>
      cases hn
      exact isSpelled_unitText (Value.isReduced_number_iff.mp hfirst.1)
    | _ => cases hn
  | unitless number hv =>
    obtain ⟨n, -, hv⟩ := Outcome.bind_eq_ok_iff.mp hv
    cases hv
    exact Value.isSpelled_bool _
  | quote hv =>
    obtain ⟨text, ht, hv⟩ := Outcome.bind_eq_ok_iff.mp hv
    cases hv
    have hstring := exists_of_assertString ht
    obtain ⟨rest, rfl⟩ := exists_of_getD hstring
    have hmaking : (Step.invoke f (.string text :: rest)).making? =
        some ⟨some '"', Text.unquote text⟩ := by
      simp only [Step.making?, hname, if_true]
    have hline := Text.isOneLine_unquote (ha _ List.mem_cons_self).isOneLine_css
    rw [← Making.text_quoted]
    exact Value.isSpelled_making hS hmaking hline
  | unquote hv =>
    obtain ⟨text, ht, hv⟩ := Outcome.bind_eq_ok_iff.mp hv
    cases hv
    have hstring := exists_of_assertString ht
    obtain ⟨rest, rfl⟩ := exists_of_getD hstring
    have hmaking : (Step.invoke f (.string text :: rest)).making? =
        some ⟨none, Text.unquote text⟩ := by
      have hapart : ¬ "unquote" = "quote" := by decide
      simp only [Step.making?, hname, if_neg hapart, if_true]
    have hline := Text.isOneLine_unquote (ha _ List.mem_cons_self).isOneLine_css
    exact Value.isSpelled_making hS hmaking hline

end Builtin

/-! ## Expressions without variables -/

namespace Session

open Evaluation (Takes Grounds)

def TakesAlone (e : Expr) (step : Step) : Prop :=
  Takes ⟨(start []).functions, []⟩ (start []).default step e

theorem grounds_isSpelled (S : Step → Prop) :
    Grounds (Value.IsSpelled S) (Leaf.IsSpelled S) S ⟨(start []).functions, []⟩
      (start []).default where
  partwise := Value.isPartwise_isSpelled
  literal _ h := h
  assigned := nofun
  unary op _ _ h := Value.isSpelled_applyUnary op h
  binary _ _ _ hS ha hb := Value.isSpelled_apply hS ha hb
  plain _ _ hname _ ha := Value.isSpelled_plainCall hname ha
  invoke _ _ hf _ hS ha _ hv := Builtin.isSpelled_body (Builtin.mem_of_get? hf).2 hS ha hv
  default _ f hf p hp e he := by
    rw [Builtin.default_eq (Builtin.mem_of_get? hf).2 hp he, Session.default,
      Evaluation.evaluateTo_literal]
    exact Traced.ensures_pure (Value.isSpelled_number (Number.isReduced_ofInt 1))

theorem isSpelled_evaluateSource {source : String} {e : Expr} (he : Source.readExpr source = .ok e)
    {v : Value} (hv : evaluateSource source [] = .ok v) : v.IsSpelled (TakesAlone e) := by
  obtain ⟨e', after, he', hv⟩ := Literal.evaluateSource_eq_ok_iff.mp hv
  rw [he] at he'
  cases he'
  rw [evaluate_eq Builtin.contained] at hv
  have hleaves : e.LeavesAre (Leaf.IsSpelled (TakesAlone e)) :=
    Source.leavesAre_of_readExpr Source.ofLeaves_isSpelled he
  exact Evaluation.ensures_of_takes (grounds_isSpelled (TakesAlone e)) e hleaves (fun _ h => h)
    [] v after hv

/-- What looks like a string literal in the value of an expression is one, and is read as one token
again, exactly if every step that makes its text is sound. -/
theorem isStringLiteral_iff_isSound {source : String} {e : Expr}
    (he : Source.readExpr source = .ok e) {v : Value} (hv : evaluateSource source [] = .ok v)
    {text : String} (ht : .string text ∈ v.parts) (hq : isQuoted text = true) :
    (IsStringLiteral text ∧
      ∀ inBlock, Source.tokens (.expression inBlock) text.toList = [.string text]) ↔
      ∀ step making, TakesAlone e step → step.making? = some making → making.text = text →
        making.IsSound := by
  constructor
  · rintro ⟨hliteral, -⟩ step making - hmaking rfl
    exact Making.isSound_of_isStringLiteral (Step.isMark_of_making? hmaking) hliteral
  · intro h
    have hliteral : IsStringLiteral text := by
      rcases ((isSpelled_evaluateSource he hv).2 _ ht).2 text rfl hq with hliteral | hmade
      · exact hliteral
      · obtain ⟨step, making, hstep, hmaking, htext, hunsound⟩ := hmade
        exact absurd (h step making hstep hmaking htext) hunsound
    have hts : ¬ Source.Broken [.string text] := by
      rintro (hforeign | - | hrest)
      · cases hforeign
      · cases hrest
    exact ⟨hliteral, (Source.lexes_string hliteral).tokens_eq hts⟩

/-- A sum and a quoted name, in a list. -/
theorem isStringLiteral_iff_isSound_sum :
    ∃ e v, Source.readExpr "[\"it's \" + quote(so), 1px]" = .ok e ∧
      evaluateSource "[\"it's \" + quote(so), 1px]" [] = .ok v ∧
      .string "\"it's so\"" ∈ v.parts ∧ isQuoted "\"it's so\"" = true ∧
      ((IsStringLiteral "\"it's so\"" ∧ ∀ inBlock,
        Source.tokens (.expression inBlock) "\"it's so\"".toList = [.string "\"it's so\""]) ↔
        ∀ step making, TakesAlone e step → step.making? = some making →
          making.text = "\"it's so\"" → making.IsSound) := by
  have hq : isQuoted "\"it's so\"" = true := by decide
  have hrun : ∃ v, evaluateSource "[\"it's \" + quote(so), 1px]" [] = .ok v ∧
      (v.parts.any fun part => part.string? == some "\"it's so\"") = true := by decide +kernel
  obtain ⟨v, hv, hany⟩ := hrun
  obtain ⟨e, -, he, -⟩ := Literal.evaluateSource_eq_ok_iff.mp hv
  obtain ⟨part, hpart, htext⟩ := List.any_eq_true.mp hany
  rw [Value.string?_eq_some_iff.mp (beq_iff_eq.mp htext)] at hpart
  exact ⟨e, v, he, hv, hpart, hq, isStringLiteral_iff_isSound he hv hpart hq⟩

/-- Quoting an escaped mark takes the backslash for one of the text and escapes the mark again. -/
theorem not_isStringLiteral_quoted :
    ¬ ∀ source v, evaluateSource source [] = .ok v →
      ∀ text, .string text ∈ v.parts → isQuoted text = true → IsStringLiteral text := by
  intro hall
  have hrun : ∃ v, evaluateSource "quote(\"\\\"\")" [] = .ok v ∧
      (v.parts.any fun part => part.string? == some "\"\\\\\"\"") = true := by decide +kernel
  obtain ⟨v, hv, hany⟩ := hrun
  obtain ⟨part, hpart, hstring⟩ := List.any_eq_true.mp hany
  rw [Value.string?_eq_some_iff.mp (beq_iff_eq.mp hstring)] at hpart
  obtain ⟨mark, rest, -, ht, hr⟩ := hall _ v hv _ hpart (by decide)
  have htext : "\"\\\\\"\"".toList = ['"', '\\', '\\', '"', '"'] := by decide
  rw [htext] at ht
  cases ht
  revert hr
  decide

end Session

end SassData
