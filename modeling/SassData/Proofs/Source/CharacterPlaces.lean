import Mathlib.Algebra.Ring.Int.Defs
import SassData.Proofs.Source.LexedTexts
import SassData.Proofs.Source.OpenFrames

/-!
# Where the characters of an expression stand

A character stands outside strings, with some brackets open, or inside a string, where a backslash
takes the next character along. Read character by character this is what the tokens say: a token
begins and ends outside strings, and its characters open and close the brackets that it opens and
closes. So an expression ends outside strings with no bracket open, and what ends elsewhere is not
one.
-/

namespace SassData.Source

set_option autoImplicit false

inductive Spot
  | outside (depth : Int)
  | inside (mark : Char) (escaped : Bool) (depth : Int)

def turnAt (c : Char) : Int :=
  if c == '(' || c == '[' then 1 else if c == ')' || c == ']' then -1 else 0

namespace Spot

def start : Spot := .outside 0

def step : Spot → Char → Spot
  | outside depth, c => if Text.isMark c then .inside c false depth else .outside (depth + turnAt c)
  | inside mark true depth, _ => .inside mark false depth
  | inside mark false depth, c =>
    if c == mark then .outside depth else .inside mark (c == '\\') depth

def along (p : Spot) (text : List Char) : Spot := text.foldl step p

def IsQuoted : Spot → Prop
  | outside _ => False
  | inside .. => True

def IsWithin : Spot → Prop
  | outside depth => 0 < depth
  | inside .. => True

/-- Behind a backslash in a string stands the mark of the string. -/
def IsEscapedMark : Spot → Char → Prop
  | inside mark true _, c => c = mark
  | _, _ => False

instance : DecidablePred IsQuoted
  | outside _ => isFalse id
  | inside .. => isTrue trivial

instance : DecidablePred IsWithin
  | outside depth => inferInstanceAs (Decidable (0 < depth))
  | inside .. => isTrue trivial

instance : (p : Spot) → (c : Char) → Decidable (p.IsEscapedMark c)
  | inside mark true _, c => inferInstanceAs (Decidable (c = mark))
  | inside _ false _, _ => isFalse id
  | outside _, _ => isFalse id

variable {x : List Char}

@[simp] theorem along_nil (p : Spot) : p.along [] = p := rfl

@[simp] theorem along_cons (p : Spot) (c : Char) (x : List Char) :
    p.along (c :: x) = (p.step c).along x := rfl

@[simp] theorem along_append (p : Spot) (x y : List Char) :
    p.along (x ++ y) = (p.along x).along y := List.foldl_append

theorem along_of_not_mark (h : x.any Text.isMark = false) (depth : Int) :
    (outside depth).along x = outside (depth + (x.map turnAt).sum) := by
  induction x generalizing depth with
  | nil => simp
  | cons c x ih =>
    rw [List.any_cons, Bool.or_eq_false_iff] at h
    obtain ⟨hc, hx⟩ := h
    have hstep : (outside depth).step c = outside (depth + turnAt c) := by simp [step, hc]
    rw [along_cons, hstep, ih hx, List.map_cons, List.sum_cons, Int.add_assoc]

end Spot

/-! ## Tokens -/

def specials : List Char := ['\'', '"', '(', ')', '[', ']']

theorem isMark_of_not_special {c : Char} (h : c ∉ specials) : Text.isMark c = false := by
  simp only [specials, List.mem_cons, List.not_mem_nil, or_false, not_or] at h
  simp [Text.isMark, h]

theorem turnAt_of_not_special {c : Char} (h : c ∉ specials) : turnAt c = 0 := by
  simp only [specials, List.mem_cons, List.not_mem_nil, or_false, not_or] at h
  simp [turnAt, h]

theorem along_of_not_special {x : List Char} (h : ∀ c ∈ x, c ∉ specials) (depth : Int) :
    (Spot.outside depth).along x = .outside depth := by
  induction x with
  | nil => rfl
  | cons c x ih =>
    obtain ⟨hc, hx⟩ := List.forall_mem_cons.mp h
    have hstep : (Spot.outside depth).step c = .outside depth := by
      simp [Spot.step, isMark_of_not_special hc, turnAt_of_not_special hc]
    rw [Spot.along_cons, hstep, ih hx]

/-- What is taken off a text has neither marks nor brackets. -/
def TakesPlain (text rest : List Char) : Prop := ∃ x, text = x ++ rest ∧ ∀ c ∈ x, c ∉ specials

namespace TakesPlain

variable {text rest more : List Char}

theorem refl (text : List Char) : TakesPlain text text := ⟨[], rfl, nofun⟩

theorem trans (h : TakesPlain text rest) (h' : TakesPlain rest more) : TakesPlain text more := by
  obtain ⟨x, rfl, hx⟩ := h
  obtain ⟨y, rfl, hy⟩ := h'
  refine ⟨x ++ y, (List.append_assoc x y more).symm, ?_⟩
  intro c hc
  exact (List.mem_append.mp hc).elim (hx c) (hy c)

theorem cons {c : Char} (hc : c ∉ specials) (text : List Char) : TakesPlain (c :: text) text :=
  ⟨[c], rfl, List.forall_mem_singleton.mpr hc⟩

theorem span {p : Char → Bool} (hp : specials.any p = false) (text : List Char) :
    TakesPlain text (text.span p).2 := by
  refine ⟨(text.span p).1, ?_, ?_⟩
  · rw [List.span_eq_takeWhile_dropWhile, List.takeWhile_append_dropWhile]
  · intro c hc hspecial
    rw [List.span_eq_takeWhile_dropWhile] at hc
    exact List.any_eq_false.mp hp c hspecial (List.mem_takeWhile_imp hc)

theorem along (h : TakesPlain text rest) (depth : Int) :
    ∃ x, text = x ++ rest ∧ (Spot.outside depth).along x = .outside depth := by
  obtain ⟨x, rfl, hx⟩ := h
  exact ⟨x, rfl, along_of_not_special hx depth⟩

end TakesPlain

section Kinds

variable {text rest : List Char}

theorem isDigit_special : specials.any Text.isDigit = false := by decide

theorem isNameChar_special : specials.any Text.isNameChar = false := by decide

theorem isNameStart_special : specials.any Text.isNameStart = false := by decide

theorem takesPlain_fraction? {digits : List Char} (h : fraction? text = some (digits, rest)) :
    TakesPlain text rest := by
  unfold fraction? at h
  split at h
  · next more =>
    simp only at h
    split at h <;> cases h
    exact (TakesPlain.cons (by decide) more).trans (.span isDigit_special more)
  · cases h

theorem takesPlain_mantissa? {digits : List Char} {places : Option Nat}
    (h : mantissa? text = some (digits, places, rest)) : TakesPlain text rest := by
  have hwhole : TakesPlain text (spanDigits text).2 := .span isDigit_special text
  simp only [mantissa?] at h
  split at h
  · next hf =>
    cases h
    exact hwhole.trans (takesPlain_fraction? hf)
  · split at h <;> cases h
    exact hwhole

theorem takesPlain_takeSign (text : List Char) : TakesPlain text (Text.takeSign text).2 := by
  unfold Text.takeSign
  split
  · exact .cons (by decide) _
  · exact .cons (by decide) _
  · exact .refl _

theorem takesPlain_exponent? {e : Int} (h : Text.exponent? Text.isDigit text = some (e, rest)) :
    TakesPlain text rest := by
  unfold Text.exponent? at h
  split at h
  · next c more =>
    simp only at h
    split at h
    · next hc =>
      have hletter : c ∉ specials := by
        simp only [Bool.or_eq_true, beq_iff_eq] at hc
        rcases hc with rfl | rfl <;> decide
      split at h <;> cases h
      exact (TakesPlain.cons hletter more).trans
        ((takesPlain_takeSign more).trans (.span isDigit_special _))
    · cases h
  · cases h

theorem takesPlain_spanUnit (text : List Char) : TakesPlain text (spanUnit text).2 := by
  unfold spanUnit
  split
  · exact .cons (by decide) _
  · exact .span isNameStart_special _

theorem takesPlain_number? {n : Number} (h : number? text = some (n, rest)) :
    TakesPlain text rest := by
  simp only [number?, Option.bind_eq_bind, Option.bind_eq_some_iff, Option.pure_def] at h
  obtain ⟨⟨digits, places, left⟩, hm, h⟩ := h
  simp only [Option.some.injEq, Prod.mk.injEq] at h
  obtain ⟨-, rfl⟩ := h
  refine (takesPlain_mantissa? hm).trans (.trans ?_ (takesPlain_spanUnit _))
  split
  · next he => exact takesPlain_exponent? he
  · exact .refl _
  · exact .refl _

theorem takesPlain_spanWord? {word : List Char} (h : spanWord? text = some (word, rest)) :
    TakesPlain text rest := by
  have hspan := (spanWord?_eq_some_iff.mp h).1
  have htaken := TakesPlain.span isNameChar_special text
  rwa [hspan] at htaken

theorem takesPlain_spanName? {name : List Char} (h : spanName? text = some (name, rest)) :
    TakesPlain text rest := by
  unfold spanName? at h
  split at h
  · next c more =>
    split at h
    · have htaken := TakesPlain.span isNameChar_special (c :: more)
      rwa [Option.some.inj h] at htaken
    · cases h
  · cases h

theorem takesPlain_flagAt? {spelling : String} {flag f : Flag}
    (hs : specials.any (fun c => c ∈ spelling.toList) = false)
    (h : flagAt? spelling flag text = some (f, rest)) :
    TakesPlain text rest := by
  unfold flagAt? at h
  split at h
  · next ha =>
    split at h <;> cases h
    refine ⟨_, after?_eq_some_iff.mp ha, ?_⟩
    intro c hc hspecial
    exact List.any_eq_false.mp hs c hspecial (decide_eq_true hc)
  · cases h

theorem takesPlain_flag? {flag : Flag} (h : flag? text = some (flag, rest)) :
    TakesPlain text rest := by
  rcases Option.or_eq_some_iff.mp h with h | ⟨-, h⟩
  · exact takesPlain_flagAt? (by decide) h
  · exact takesPlain_flagAt? (by decide) h

/-- Behind its opening mark a string takes what leads out of it. -/
theorem along_afterString? {mark : Char} (h : afterString? mark text = some rest) (depth : Int) :
    ∃ x, text = x ++ rest ∧ (Spot.inside mark false depth).along x = .outside depth := by
  fun_induction afterString? mark text with
  | case1 => cases h
  | case2 c hc =>
    cases h
    exact ⟨[c], rfl, by simp [Spot.step, hc]⟩
  | case3 => cases h
  | case4 c d more hc =>
    cases h
    exact ⟨[c], rfl, by simp [Spot.step, hc]⟩
  | case5 => cases h
  | case6 => cases h
  | case7 c d more hc _ hslash _ ih =>
    obtain ⟨x, rfl, hx⟩ := ih h
    exact ⟨c :: d :: x, rfl, by simpa [Spot.step, hc, hslash] using hx⟩
  | case8 c d more hc _ hslash ih =>
    obtain ⟨x, hd, hx⟩ := ih h
    exact ⟨c :: x, by rw [hd]; rfl, by simpa [Spot.step, hc, hslash] using hx⟩

theorem symbol?_spelling {symbol : Symbol} (h : symbol? text = some (symbol, rest)) :
    ∃ spelling, (spelling, symbol) ∈ spellings ∧ text = spelling.toList ++ rest := by
  obtain ⟨⟨spelling, s⟩, hm, h⟩ := List.exists_of_findSome?_eq_some h
  obtain ⟨left, ha, h⟩ := Option.map_eq_some_iff.mp h
  cases h
  exact ⟨spelling, hm, after?_eq_some_iff.mp ha⟩

theorem turn_spelling : ∀ entry ∈ spellings, entry.1.toList.any Text.isMark = false ∧
    (entry.1.toList.map turnAt).sum = (Token.symbol entry.2).turn := by
  decide

theorem along_exprToken? {t : Token} (h : exprToken? text = some (t, rest)) (depth : Int) :
    ∃ x, text = x ++ rest ∧ (Spot.outside depth).along x = .outside (depth + t.turn) := by
  have hplain (ht : t.turn = 0) (h : TakesPlain text rest) :
      ∃ x, text = x ++ rest ∧ (Spot.outside depth).along x = .outside (depth + t.turn) := by
    rw [ht, Int.add_zero]
    exact h.along depth
  unfold exprToken? at h
  split at h
  · cases h
  next c more =>
  split at h
  · next hn =>
    cases h
    exact hplain rfl (takesPlain_number? hn)
  split at h
  · next hm =>
    obtain ⟨left, hs, h⟩ := Option.map_eq_some_iff.mp h
    cases h
    obtain ⟨x, rfl, hx⟩ := along_afterString? hs depth
    refine ⟨c :: x, rfl, ?_⟩
    have hstep : (Spot.outside depth).step c = .inside c false depth := by simp [Spot.step, hm]
    rw [Spot.along_cons, hstep, hx]
    exact congrArg Spot.outside (Int.add_zero depth).symm
  split at h
  · next hw =>
    cases h
    obtain ⟨x, hx, halong⟩ := (takesPlain_spanWord? hw).along depth
    exact ⟨x ++ ['('], by simp [hx], by rw [Spot.along_append, halong]; rfl⟩
  · cases h
    exact hplain rfl (takesPlain_spanWord? ‹_›)
  split at h
  · next hc =>
    obtain ⟨⟨name, left⟩, hn, h⟩ := Option.map_eq_some_iff.mp h
    cases h
    rw [beq_iff_eq.mp hc] at hplain ⊢
    exact hplain rfl ((TakesPlain.cons (by decide) more).trans (takesPlain_spanName? hn))
  split at h
  · next hc =>
    simp only at h
    split at h <;> cases h
    rw [beq_iff_eq.mp hc] at hplain ⊢
    exact hplain rfl ((TakesPlain.cons (by decide) more).trans (.span (by decide) more))
  split at h
  · next hf =>
    cases h
    exact hplain rfl (takesPlain_flag? hf)
  · obtain ⟨⟨symbol, left⟩, hs, h⟩ := Option.map_eq_some_iff.mp h
    cases h
    obtain ⟨spelling, hm, hx⟩ := symbol?_spelling hs
    obtain ⟨hmarks, hturn⟩ := turn_spelling _ hm
    exact ⟨_, hx, by rw [Spot.along_of_not_mark hmarks, hturn]⟩

end Kinds

/-! ## Expressions -/

/-- Every comma is within brackets or a string, and no comment begins outside strings. -/
structure IsNested (p : Spot) (text : List Char) : Prop where
  commas : ∀ before after, text = before ++ ',' :: after → (p.along before).IsWithin
  comments : ∀ before c after, text = before ++ '/' :: c :: after → c = '/' ∨ c = '*' →
    (p.along before).IsQuoted

namespace IsNested

variable {p : Spot} {x y text rest : List Char}

theorem of_append_left (h : IsNested p (x ++ y)) : IsNested p x := by
  constructor
  · rintro before after rfl
    exact h.commas before (after ++ y) (by simp)
  · rintro before c after rfl
    exact h.comments before c (after ++ y) (by simp)

theorem of_append_right (h : IsNested p (x ++ y)) : IsNested (p.along x) y := by
  constructor
  · rintro before after rfl
    rw [← Spot.along_append]
    exact h.commas (x ++ before) after (by simp)
  · rintro before c after rfl
    rw [← Spot.along_append]
    exact h.comments (x ++ before) c after (by simp)

theorem nil (p : Spot) : IsNested p [] := by
  constructor
  · intro before after h
    cases before <;> cases h
  · intro before c after h
    cases before <;> cases h

theorem cons_iff {c : Char} : IsNested p (c :: rest) ↔ (c = ',' → p.IsWithin) ∧
    (c = '/' → rest.head? = some '/' ∨ rest.head? = some '*' → p.IsQuoted) ∧
      IsNested (p.step c) rest := by
  constructor
  · intro h
    refine ⟨?_, ?_, h.of_append_right (x := [c])⟩
    · rintro rfl
      exact h.commas [] rest rfl
    · rintro rfl hhead
      cases rest with
      | nil => simp at hhead
      | cons d rest => exact h.comments [] d rest rfl (by simpa using hhead)
  · rintro ⟨hcomma, hcomment, hrest⟩
    constructor
    · intro before after h
      cases before with
      | nil =>
        cases h
        exact hcomma rfl
      | cons d before =>
        cases h
        exact hrest.commas before after rfl
    · intro before d after h hd
      cases before with
      | nil =>
        cases h
        exact hcomment rfl (by simpa using hd)
      | cons d before =>
        cases h
        exact hrest.comments before _ after rfl hd

instance decidable : (p : Spot) → (text : List Char) → Decidable (IsNested p text)
  | p, [] => isTrue (nil p)
  | p, c :: rest =>
    have := decidable (p.step c) rest
    decidable_of_iff' _ cons_iff

theorem blank_of_afterBlank? {depth : Int} (h : IsNested (.outside depth) text)
    (hb : afterBlank? text = some rest) : ∃ c, text = c :: rest ∧ isSpace c = true := by
  unfold afterBlank? at hb
  split at hb
  · exact (h.comments [] '*' _ rfl (Or.inr rfl)).elim
  · exact (h.comments [] '/' _ rfl (Or.inl rfl)).elim
  · next c more _ _ =>
    split at hb <;> cases hb
    exact ⟨c, rfl, ‹_›⟩
  · cases hb

end IsNested

theorem not_special_of_isSpace {c : Char} (h : isSpace c = true) : c ∉ specials := by
  simp only [isSpace, List.mem_cons, List.not_mem_nil, or_false, decide_eq_true_eq] at h
  rcases h with rfl | rfl | rfl | rfl | rfl <;> decide

theorem spelling_of_exprToken? {text rest : List Char} {symbol : Symbol}
    (h : exprToken? text = some (.symbol symbol, rest)) :
    ∃ spelling, (spelling, symbol) ∈ spellings ∧ text = spelling.toList ++ rest := by
  unfold exprToken? at h
  split at h
  · cases h
  split at h
  · cases h
  split at h
  · obtain ⟨left, -, h⟩ := Option.map_eq_some_iff.mp h
    cases h
  split at h
  · cases h
  · cases h
  split at h
  · obtain ⟨found, -, h⟩ := Option.map_eq_some_iff.mp h
    cases h
  split at h
  · simp only at h
    split at h <;> cases h
  split at h
  · cases h
  · obtain ⟨⟨symbol, left⟩, hs, h⟩ := Option.map_eq_some_iff.mp h
    cases h
    exact symbol?_spelling hs

variable {r s : Reading} {text : List Char} {inBlock : Bool}

/-- The tokens read so far and the characters agree on where the text has come, and no comma list
has begun at the bottom. -/
theorem along_of_pushAll
    (h : pushAll Reading.push? r (tokens (.expression inBlock) text) = some s)
    (hn : IsNested (.outside (Reading.depth r.frames)) text) (hr : r.bottom? = none) :
    (Spot.outside (Reading.depth r.frames)).along text = .outside (Reading.depth s.frames) ∧
      s.bottom? = none := by
  induction hl : text.length using Nat.strongRecOn generalizing text r with
  | ind length ih =>
  subst hl
  by_cases hne : text = []
  · subst hne
    rw [tokens_nil, pushAll_nil] at h
    cases h
    exact ⟨rfl, hr⟩
  cases hb : afterBlank? text with
  | some rest =>
    obtain ⟨c, rfl, hc⟩ := hn.blank_of_afterBlank? hb
    have hstep := along_of_not_special
      (List.forall_mem_singleton.mpr (not_special_of_isSpace hc)) (Reading.depth r.frames)
    rw [tokens_of_blank hb] at h
    have hrest := IsNested.of_append_right (x := [c]) hn
    rw [hstep] at hrest
    rw [Spot.along_cons]
    rw [Spot.along_cons, Spot.along_nil] at hstep
    rw [hstep]
    exact ih rest.length (Nat.lt_succ_self _) h hrest hr rfl
  | none =>
    cases ht : exprToken? text with
    | none =>
      rw [@tokens_of_none (.expression inBlock) _ hb ht hne, pushAll_cons,
        Reading.push?_foreign rfl] at h
      cases h
    | some found =>
      obtain ⟨t, rest⟩ := found
      have hlength := (leaves_of_exprToken? ht).length_lt
      obtain ⟨x, rfl, hx⟩ := along_exprToken? ht (Reading.depth r.frames)
      have hpush := h
      rw [@tokens_of_token (.expression inBlock) _ _ _ hb ht, pushAll_cons] at hpush
      obtain ⟨r', hr', -⟩ := Option.bind_eq_some_iff.mp hpush
      rw [tokens_of_exprToken hb ht (Reading.isForeign_of_push? hr'), pushAll_cons, hr'] at h
      have hdepth := Reading.depth_push? hr'
      have hbottom : r'.bottom? = none := by
        rcases Reading.bottom?_push? hr' with ⟨more, hmore⟩ | ⟨rfl, hopen⟩
        · rw [hmore, hr]
          rfl
        · obtain ⟨spelling, hs, htext⟩ := spelling_of_exprToken? ht
          have hcomma : spelling = "," := by
            have hone : ∀ entry ∈ spellings, entry.2 = .comma → entry.1 = "," := by decide
            exact hone _ hs rfl
          -- A comma with nothing open would stand outside all brackets.
          have hwithin := hn.commas [] rest (by rw [htext, hcomma]; rfl)
          rw [Spot.along_nil, Reading.depth, hopen] at hwithin
          exact absurd hwithin (Int.lt_irrefl 0)
      have hrest := hn.of_append_right
      rw [hx, ← hdepth] at hrest
      rw [Spot.along_append, hx, ← hdepth]
      exact ih rest.length hlength h hrest hbottom rfl

theorem openings_of_readExpr {text : String} {e : Expr} (h : readExpr text = .ok e)
    (hn : IsNested .start text.toList) :
    ∃ r, pushAll Reading.push? .start (tokens (.expression false) text.toList) = some r ∧
      r.finish? = some e ∧ Reading.openings r.frames = [] ∧ r.focus ≠ .nothing ∧
      Spot.start.along text.toList = .start := by
  obtain ⟨r, hr, hfinish, -⟩ := readExpr_eq_ok_iff.mp h
  obtain ⟨halong, hbottom⟩ := along_of_pushAll hr hn rfl
  rcases Reading.openings_of_finish? hfinish with ⟨hopen, hfocus⟩ | ⟨items, hitems, -⟩
  · have hdepth : Reading.depth r.frames = 0 := by
      rw [Reading.depth, hopen]
      rfl
    rw [hdepth] at halong
    exact ⟨r, hr, hfinish, hopen, hfocus, halong⟩
  · rw [hbottom] at hitems
    cases hitems

theorem EndsInComment.not_isNested (h : EndsInComment text) (depth : Int) :
    ¬ IsNested (.outside depth) text := by
  induction h generalizing depth with
  | here h =>
    obtain ⟨z, rfl, -⟩ := h
    exact fun hn => hn.comments [] '/' z rfl (Or.inl rfl)
  | blank hb _ ih =>
    intro hn
    obtain ⟨c, rfl, hc⟩ := hn.blank_of_afterBlank? hb
    have hstep := along_of_not_special
      (List.forall_mem_singleton.mpr (not_special_of_isSpace hc)) depth
    have hrest := IsNested.of_append_right (x := [c]) hn
    rw [hstep] at hrest
    exact ih depth hrest
  | token _ ht _ _ ih =>
    intro hn
    obtain ⟨x, rfl, hx⟩ := along_exprToken? ht depth
    have hrest := hn.of_append_right
    rw [hx] at hrest
    exact ih _ hrest

theorem tokens_readExpr {text : String} {e : Expr} {c : Char} (h : readExpr text = .ok e)
    (hn : IsNested .start text.toList) (hc : IsBoundary c) (more : List Char) :
    tokens (.expression false) (text.toList ++ c :: more) =
      tokens (.expression false) text.toList ++ tokens (.expression false) (c :: more) := by
  obtain ⟨r, hr, -⟩ := readExpr_eq_ok_iff.mp h
  rcases tokens_boundary hc false text.toList with hcut | ⟨hbroken, -⟩ | ⟨hcomment, -⟩
  · exact hcut more
  · rw [Reading.pushAll_broken hbroken] at hr
    cases hr
  · exact absurd hn (hcomment.not_isNested 0)

/-- An expression without commas of its own that goes on behind a comma is no longer that
expression. -/
theorem readExpr_comma_ne {text : String} {e : Expr} (h : readExpr text = .ok e)
    (hn : IsNested .start text.toList) (more : List Char) :
    readExpr (String.ofList (text.toList ++ ',' :: more)) ≠ .ok e := by
  intro hmore
  obtain ⟨r, hr, hfinish, hopen, hfocus, -⟩ := openings_of_readExpr h hn
  obtain ⟨r', hr', hfinish', -⟩ := readExpr_eq_ok_iff.mp hmore
  rw [String.toList_ofList, tokens_readExpr h hn isBoundary_comma, tokens_comma, pushAll_append,
    hr] at hr'
  exact Reading.finish?_ne_of_comma hfinish hopen hfocus hr' hfinish'

end SassData.Source
