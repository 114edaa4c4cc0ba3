import Mathlib.Data.List.TakeWhile
import SassData.Proofs.Source.TokenSuffixes

/-!
# Where tokens end

A boundary is a character that no token of an expression goes past: what stands in front of it is
read as if it were the end of the text. Strings and comments are the exception, since they run to
their own end; of them only what is complete before the boundary stays as it is.
-/

namespace SassData.Source

set_option autoImplicit false

structure IsBoundary (c : Char) : Prop where
  notDigit : Text.isDigit c = false
  notName : Text.isNameChar c = false
  notWord : Text.isWordChar c = false
  notMark : Text.isMark c = false
  notOther : c ∉ ['.', '+', '%', '(', '=', '*', '/', '!']

theorem isBoundary_of_mem {c : Char} (h : c ∈ [')', ',', ':', ';', ' ', ']']) : IsBoundary c := by
  have hall : ([')', ',', ':', ';', ' ', ']'].all fun d =>
      !Text.isDigit d && !Text.isNameChar d && !Text.isWordChar d && !Text.isMark d &&
        !(['.', '+', '%', '(', '=', '*', '/', '!'].contains d)) = true := by decide
  have hc := List.all_eq_true.mp hall c h
  simp only [Bool.and_eq_true, Bool.not_eq_true', List.contains_eq_mem, decide_eq_false_iff_not]
    at hc
  obtain ⟨⟨⟨⟨hdigit, hname⟩, hword⟩, hmark⟩, hother⟩ := hc
  exact ⟨hdigit, hname, hword, hmark, hother⟩

theorem isBoundary_closeParen : IsBoundary ')' := isBoundary_of_mem (by decide)

theorem isBoundary_comma : IsBoundary ',' := isBoundary_of_mem (by decide)

theorem isBoundary_colon : IsBoundary ':' := isBoundary_of_mem (by decide)

theorem isBoundary_semicolon : IsBoundary ';' := isBoundary_of_mem (by decide)

theorem isBoundary_space : IsBoundary ' ' := isBoundary_of_mem (by decide)

theorem isBoundary_closeBracket : IsBoundary ']' := isBoundary_of_mem (by decide)

/-- What is read in front of a boundary does not depend on what follows. -/
def StopsAt {α : Type} (c : Char) (read : List Char → Option (α × List Char)) : Prop :=
  ∀ x y, read (x ++ c :: y) = (read x).map fun (a, rest) => (a, rest ++ c :: y)

namespace IsBoundary

variable {c : Char}

theorem notNameStart (hc : IsBoundary c) : Text.isNameStart c = false := by
  cases h : Text.isNameStart c with
  | false => rfl
  | true =>
    have := Text.isNameChar_of_isNameStart h
    rw [hc.notName] at this
    cases this

theorem ne_of_nameChar (hc : IsBoundary c) {d : Char} (hd : Text.isNameChar d = true) : c ≠ d := by
  rintro rfl
  rw [hc.notName] at hd
  cases hd

theorem ne_of_mem (hc : IsBoundary c) {d : Char}
    (hd : d ∈ ['.', '+', '%', '(', '=', '*', '/', '!']) : c ≠ d := by
  rintro rfl
  exact hc.notOther hd

theorem notAlphanum (hc : IsBoundary c) : c.isAlphanum = false := by
  have := hc.notName
  simp only [Text.isNameChar, Bool.or_eq_false_iff] at this
  exact this.1.1

theorem spanDigits_append (hc : IsBoundary c) (x y : List Char) :
    spanDigits (x ++ c :: y) = ((spanDigits x).1, (spanDigits x).2 ++ c :: y) :=
  span_append_cons hc.notDigit x y

theorem fraction? (hc : IsBoundary c) : StopsAt c fraction? := by
  have hdot := hc.ne_of_mem (d := '.') (by simp)
  have bare {d : Char} (hd : d ≠ '.') (z : List Char) : Source.fraction? (d :: z) = none := by
    unfold Source.fraction?
    split
    · next he => exact absurd (List.cons.inj he).1 hd
    · rfl
  intro x y
  cases x with
  | nil => exact bare hdot y
  | cons d x =>
    by_cases hd : d = '.'
    · subst hd
      simp only [Source.fraction?, List.cons_append, hc.spanDigits_append]
      split <;> rfl
    · rw [List.cons_append, bare hd, bare hd]
      rfl

theorem mantissa? (hc : IsBoundary c) (x y : List Char) :
    mantissa? (x ++ c :: y) =
      (mantissa? x).map fun (digits, places, rest) => (digits, places, rest ++ c :: y) := by
  simp only [Source.mantissa?, hc.spanDigits_append, hc.fraction? (spanDigits x).2 y]
  cases Source.fraction? (spanDigits x).2 with
  | some f => rfl
  | none =>
    simp only [Option.map_none]
    split <;> rfl

theorem takeSign (hc : IsBoundary c) (x y : List Char) :
    Text.takeSign (x ++ c :: y) =
      ((Text.takeSign x).1, (Text.takeSign x).2 ++ c :: y) := by
  have hplus := hc.ne_of_mem (d := '+') (by simp)
  have hminus := hc.ne_of_nameChar (d := '-') (by decide)
  cases x with
  | nil =>
    simp only [List.nil_append]
    unfold Text.takeSign
    split
    · next he => exact absurd (List.cons.inj he).1 hminus
    · next he => exact absurd (List.cons.inj he).1 hplus
    · rfl
  | cons d x =>
    by_cases hm : d = '-'
    · subst hm
      rfl
    by_cases hp : d = '+'
    · subst hp
      rfl
    · have bare (z : List Char) : Text.takeSign (d :: z) = (false, d :: z) := by
        unfold Text.takeSign
        split
        · next he => exact absurd (List.cons.inj he).1 hm
        · next he => exact absurd (List.cons.inj he).1 hp
        · rfl
      simp only [List.cons_append, bare]

theorem exponent? (hc : IsBoundary c) : StopsAt c (Text.exponent? Text.isDigit) := by
  intro x y
  cases x with
  | nil =>
    have he := hc.ne_of_nameChar (d := 'e') (by decide)
    have hE := hc.ne_of_nameChar (d := 'E') (by decide)
    simp [Text.exponent?, he, hE]
  | cons d x =>
    simp only [Text.exponent?, List.cons_append, hc.takeSign, span_append_cons hc.notDigit]
    split
    · split <;> rfl
    · rfl

theorem spanUnit (hc : IsBoundary c) (x y : List Char) :
    spanUnit (x ++ c :: y) = ((spanUnit x).1, (spanUnit x).2 ++ c :: y) := by
  have hpercent := hc.ne_of_mem (d := '%') (by simp)
  have bare {d : Char} (hd : d ≠ '%') (z : List Char) :
      Source.spanUnit (d :: z) = (d :: z).span Text.isNameStart := by
    unfold Source.spanUnit
    split
    · next he => exact absurd (List.cons.inj he).1 hd
    · rfl
  cases x with
  | nil =>
    rw [List.nil_append, bare hpercent]
    exact span_append_cons hc.notNameStart [] y
  | cons d x =>
    by_cases hd : d = '%'
    · subst hd
      rfl
    · rw [List.cons_append, bare hd, bare hd]
      exact span_append_cons hc.notNameStart (d :: x) y

theorem number? (hc : IsBoundary c) : StopsAt c number? := by
  intro x y
  simp only [Source.number?, hc.mantissa?]
  cases Source.mantissa? x with
  | none => rfl
  | some m =>
    obtain ⟨digits, places, rest⟩ := m
    simp only [Option.map_some, Option.bind_eq_bind, Option.bind_some, hc.exponent? rest y]
    cases Text.exponent? Text.isDigit rest with
    | some e => simp [hc.spanUnit]
    | none => cases places <;> simp [hc.spanUnit]

theorem spanWord? (hc : IsBoundary c) : StopsAt c spanWord? := by
  intro x y
  have hh : (c == '-') = false := by
    rw [beq_eq_false_iff_ne]
    exact hc.ne_of_nameChar (by decide)
  have ht : (x ++ c :: y).takeWhile (· == '-') = x.takeWhile (· == '-') := by
    have := span_append_cons (p := (· == '-')) hh x y
    simp only [List.span_eq_takeWhile_dropWhile] at this
    exact (Prod.mk.inj this).1
  have hd : (x ++ c :: y).dropWhile (· == '-') = x.dropWhile (· == '-') ++ c :: y := by
    have := span_append_cons (p := (· == '-')) hh x y
    simp only [List.span_eq_takeWhile_dropWhile] at this
    exact (Prod.mk.inj this).2
  have hn : ((x.dropWhile (· == '-')) ++ c :: y).head?.any Text.isNameStart =
      (x.dropWhile (· == '-')).head?.any Text.isNameStart := by
    cases x.dropWhile (· == '-') with
    | nil => exact hc.notNameStart
    | cons d more => rfl
  ext ⟨word, rest⟩
  simp only [spanWord?_eq_some_iff, Option.map_eq_some_iff, ht, hd, hn, Prod.exists,
    Prod.mk.injEq]
  rw [span_append_cons hc.notName]
  constructor
  · rintro ⟨hs, hw⟩
    obtain ⟨rfl, rfl⟩ := Prod.mk.inj hs
    exact ⟨_, _, ⟨rfl, hw⟩, rfl, rfl⟩
  · rintro ⟨word, left, ⟨hs, hw⟩, rfl, rfl⟩
    exact ⟨by rw [hs], hw⟩

theorem spanName? (hc : IsBoundary c) : StopsAt c spanName? := by
  intro x y
  cases x with
  | nil => simp [Source.spanName?, hc.notNameStart]
  | cons d x =>
    have := span_append_cons hc.notName (d :: x) y
    rw [List.cons_append] at this
    simp only [Source.spanName?, List.cons_append, this]
    split <;> rfl

/-- A beginning that the boundary could only stand at the front of is found in front of it. -/
theorem after?_cons {beginning : List Char} (h : c ∉ beginning.tail) (d : Char) (x y : List Char) :
    after? beginning (d :: x ++ c :: y) = (after? beginning (d :: x)).map (· ++ c :: y) := by
  ext rest
  rw [after?_eq_some_iff, Option.map_eq_some_iff]
  simp only [after?_eq_some_iff]
  constructor
  · intro he
    rcases List.append_eq_append_iff.mp he with ⟨left, hb, hr⟩ | ⟨left, hx, hr⟩
    · cases left with
      | nil => exact ⟨[], by simp [hb], hr⟩
      | cons e left =>
        obtain ⟨rfl, -⟩ := List.cons.inj hr
        exact absurd (by rw [hb]; simp) h
    · exact ⟨left, hx, hr.symm⟩
  · rintro ⟨left, he, rfl⟩
    simp [he]

theorem notMem (hc : IsBoundary c) {word : List Char}
    (hw : word.all (fun d => Text.isNameChar d || d == '!') = true) : c ∉ word := by
  intro hm
  have hall := List.all_eq_true.mp hw c hm
  rw [Bool.or_eq_true, beq_iff_eq] at hall
  rcases hall with h | h
  · exact hc.ne_of_nameChar h rfl
  · exact hc.notOther (by simp [h])

theorem flagAt? (hc : IsBoundary c) {spelling : String} (hs : c ∉ spelling.toList) (flag : Flag)
    (d : Char) (x y : List Char) :
    flagAt? spelling flag (d :: x ++ c :: y) =
      (flagAt? spelling flag (d :: x)).map fun (flag, rest) => (flag, rest ++ c :: y) := by
  simp only [Source.flagAt?, after?_cons (fun hm => hs (List.mem_of_mem_tail hm))]
  cases Source.after? spelling.toList (d :: x) with
  | none => rfl
  | some rest =>
    have next : (rest ++ c :: y).head?.any Text.isWordChar = rest.head?.any Text.isWordChar := by
      cases rest with
      | nil => exact hc.notWord
      | cons => rfl
    simp only [Option.map_some, next]
    split <;> rfl

theorem flag? (hc : IsBoundary c) (d : Char) (x y : List Char) :
    flag? (d :: x ++ c :: y) =
      (flag? (d :: x)).map fun (flag, rest) => (flag, rest ++ c :: y) := by
  have hd : c ∉ "!default".toList := hc.notMem (by decide)
  have hg : c ∉ "!global".toList := hc.notMem (by decide)
  simp only [Source.flag?, hc.flagAt? hd, hc.flagAt? hg]
  cases Source.flagAt? "!default" .default (d :: x) <;> rfl

/-- A symbol may be the boundary itself, so this is about texts that are not empty. -/
theorem symbol? (hc : IsBoundary c) (d : Char) (x y : List Char) :
    symbol? (d :: x ++ c :: y) =
      (symbol? (d :: x)).map fun (symbol, rest) => (symbol, rest ++ c :: y) := by
  have htail : ∀ entry ∈ spellings, c ∉ entry.1.toList.tail := by
    have hall : spellings.all (fun entry =>
        entry.1.toList.tail.all fun d => d == '.' || d == '=') = true := by decide
    intro entry he hm
    have hentry := List.all_eq_true.mp (List.all_eq_true.mp hall entry he) c hm
    rw [Bool.or_eq_true, beq_iff_eq, beq_iff_eq] at hentry
    rcases hentry with h | h
    · exact hc.notOther (by simp [h])
    · exact hc.notOther (by simp [h])
  have each : ∀ entries : List (String × Symbol), (∀ entry ∈ entries, c ∉ entry.1.toList.tail) →
      (entries.findSome? fun entry =>
        (Source.after? entry.1.toList (d :: x ++ c :: y)).map fun rest => (entry.2, rest)) =
      (entries.findSome? fun entry =>
        (Source.after? entry.1.toList (d :: x)).map fun rest => (entry.2, rest)).map
          fun result => (result.1, result.2 ++ c :: y) := by
    intro entries
    induction entries with
    | nil => intro _; rfl
    | cons entry entries ih =>
      intro h
      have ih := ih fun e he => h e (List.mem_cons_of_mem entry he)
      simp only [List.findSome?_cons, after?_cons (h entry List.mem_cons_self)]
      cases Source.after? entry.1.toList (d :: x) with
      | none => exact ih
      | some rest => rfl
  exact each spellings htail

theorem afterString?_append {mark : Char} {x rest : List Char}
    (h : afterString? mark x = some rest) (y : List Char) :
    afterString? mark (x ++ y) = some (rest ++ y) := by
  fun_induction Source.afterString? mark x with
  | case1 => cases h
  | case2 c hc =>
    cases h
    cases y with
    | nil => simp [Source.afterString?, hc]
    | cons d y => simp [Source.afterString?, hc]
  | case3 => cases h
  | case4 c d more hc =>
    cases h
    simp [Source.afterString?, hc]
  | case5 => cases h
  | case6 => cases h
  | case7 c d more hc hn hb hd ih => simpa [Source.afterString?, hc, hn, hb, hd] using ih h
  | case8 c d more hc hn hb ih => simpa [Source.afterString?, hc, hn, hb] using ih h

theorem afterString?_boundary (hc : IsBoundary c) {mark : Char} (hm : Text.isMark mark = true)
    {x : List Char} (h : afterString? mark x = none) : afterString? mark (x ++ [c]) = none := by
  have hcm : c ≠ mark := by
    rintro rfl
    rw [hc.notMark] at hm
    cases hm
  fun_induction Source.afterString? mark x with
  | case1 => simp [Source.afterString?, hcm]
  | case2 => cases h
  | case3 d hd =>
    have hend : Source.afterString? mark [c] = none := by simp [Source.afterString?, hcm]
    rw [List.singleton_append]
    unfold Source.afterString?
    rw [if_neg hd, hend]
    split
    · rfl
    · split
      · split <;> rfl
      · rfl
  | case4 => cases h
  | case5 d e more hd hn => simp [Source.afterString?, hd, hn]
  | case6 d e more hd hn hb he => simp [Source.afterString?, hd, hn, hb, he]
  | case7 d e more hd hn hb he ih => simpa [Source.afterString?, hd, hn, hb, he] using ih h
  | case8 d e more hd hn hb ih => simpa [Source.afterString?, hd, hn, hb] using ih h

/-! ## Tokens of expressions -/

theorem number?_mark {mark : Char} (hm : Text.isMark mark = true) (x : List Char) :
    Source.number? (mark :: x) = none := by
  have hd : Text.isDigit mark = false ∧ mark ≠ '.' := by
    rcases Text.eq_of_isMark hm with rfl | rfl <;> decide
  have hs : spanDigits (mark :: x) = ([], mark :: x) := by
    simp [spanDigits, List.span_eq_takeWhile_dropWhile, hd.1]
  have hf : Source.fraction? (mark :: x) = none := by
    unfold Source.fraction?
    split
    · next he => exact absurd (List.cons.inj he).1 hd.2
    · rfl
  simp [Source.number?, Source.mantissa?, hs, hf]

theorem exprToken?_mark {mark : Char} (hm : Text.isMark mark = true) (x : List Char) :
    exprToken? (mark :: x) = (Source.afterString? mark x).map fun rest =>
      (.string (String.ofList ((mark :: x).take ((mark :: x).length - rest.length))), rest) := by
  simp [Source.exprToken?, number?_mark hm, hm]

theorem exprToken?_of_not_mark (hc : IsBoundary c) {d : Char} (hd : Text.isMark d = false)
    (x y : List Char) :
    exprToken? (d :: x ++ c :: y) =
      (exprToken? (d :: x)).map fun (token, rest) => (token, rest ++ c :: y) := by
  have hn := hc.number? (d :: x) y
  have hw := hc.spanWord? (d :: x) y
  have hv := hc.spanName? x y
  have ha := span_append_cons hc.notAlphanum x y
  have hf := hc.flag? d x y
  have hs := hc.symbol? d x y
  have hp := hc.ne_of_mem (d := '(') (by simp)
  rw [List.cons_append] at hn hw hf hs ⊢
  simp only [Source.exprToken?, hd, hn, hw, hv, ha, hf, hs]
  cases Source.number? (d :: x) with
  | some n => rfl
  | none =>
    cases Source.spanWord? (d :: x) with
    | some word =>
      obtain ⟨word, rest⟩ := word
      simp only [Option.map_some, Option.map_none, Bool.false_eq_true, ↓reduceIte]
      cases rest with
      | nil =>
        split
        · next he =>
          simp only [Option.some.injEq, Prod.mk.injEq, List.nil_append, List.cons.injEq] at he
          exact absurd he.2.1 hp
        · next he =>
          cases he
          rfl
        · next he => cases he
      | cons e rest =>
        by_cases he : e = '('
        · subst he
          rfl
        · split
          · next h =>
            simp only [Option.some.injEq, Prod.mk.injEq, List.cons_append, List.cons.injEq] at h
            exact absurd h.2.1 he
          · next h =>
            cases h
            split
            · next h =>
              simp only [Option.some.injEq, Prod.mk.injEq, List.cons.injEq] at h
              exact absurd h.2.1 he
            · next h =>
              cases h
              rfl
            · next h => cases h
          · next h => cases h
    | none =>
      simp only [Option.map_none, Bool.false_eq_true, ↓reduceIte]
      split
      · cases Source.spanName? x <;> rfl
      · split
        · split <;> rfl
        · cases Source.flag? (d :: x) with
          | some f => rfl
          | none => cases Source.symbol? (d :: x) <;> rfl

theorem exprToken?_append (hc : IsBoundary c) {x rest : List Char} {t : Token}
    (h : exprToken? x = some (t, rest)) (y : List Char) :
    exprToken? (x ++ c :: y) = some (t, rest ++ c :: y) := by
  cases x with
  | nil => cases h
  | cons d x =>
    cases hd : Text.isMark d with
    | false => rw [hc.exprToken?_of_not_mark hd, h, Option.map_some]
    | true =>
      rw [exprToken?_mark hd, Option.map_eq_some_iff] at h
      obtain ⟨left, hs, h⟩ := h
      obtain ⟨rfl, rfl⟩ := Prod.mk.inj h
      obtain ⟨front, hfront⟩ := (suffix_of_afterString? hs).trans (List.suffix_cons d x)
      rw [List.cons_append, exprToken?_mark hd, afterString?_append hs, Option.map_some,
        ← List.cons_append, ← hfront]
      simp

theorem exprToken?_boundary (hc : IsBoundary c) {d : Char} {x : List Char}
    (h : exprToken? (d :: x) = none) : exprToken? (d :: x ++ [c]) = none := by
  cases hd : Text.isMark d with
  | false => rw [hc.exprToken?_of_not_mark hd, h, Option.map_none]
  | true =>
    rw [exprToken?_mark hd, Option.map_eq_none_iff] at h
    rw [List.cons_append, exprToken?_mark hd, hc.afterString?_boundary hd h, Option.map_none]

/-! ## Comments -/

theorem afterBlock?_append {x rest : List Char} (h : Source.afterBlock? x = some rest)
    (y : List Char) : Source.afterBlock? (x ++ y) = some (rest ++ y) := by
  fun_induction Source.afterBlock? x with
  | case1 rest =>
    cases h
    rfl
  | case2 d more hd ih =>
    cases more with
    | nil => cases h
    | cons e more =>
      rw [List.cons_append, Source.afterBlock?]
      · exact ih h
      · intro left hl hm
        exact hd more hl (by rw [(List.cons.inj hm).1])
  | case3 => cases h

theorem afterBlock?_boundary (hc : IsBoundary c) {x : List Char}
    (h : Source.afterBlock? x = none) : Source.afterBlock? (x ++ [c]) = none := by
  have hslash := hc.ne_of_mem (d := '/') (by simp)
  fun_induction Source.afterBlock? x with
  | case1 => cases h
  | case2 d more hd ih =>
    rw [List.cons_append, Source.afterBlock?]
    · exact ih h
    · intro left hl hm
      cases more with
      | nil => exact hslash (List.cons.inj hm).1
      | cons e more => exact hd more hl (by rw [(List.cons.inj hm).1])
  | case3 =>
    rw [List.nil_append, Source.afterBlock?]
    · rfl
    · rintro left - ⟨⟩

/-- A comment to the end of its line that nothing has ended yet. -/
def IsOpenComment (x : List Char) : Prop := ∃ z, x = '/' :: '/' :: z ∧ '\n' ∉ z

theorem afterBlank?_append {x rest : List Char} (h : afterBlank? x = some rest) (y : List Char) :
    afterBlank? (x ++ y) = some (rest ++ y) ∨ IsOpenComment x := by
  unfold Source.afterBlank? at h
  split at h
  · exact Or.inl (afterBlock?_append h y)
  · next z =>
    by_cases hz : '\n' ∈ z
    · have hd : (z ++ y).dropWhile (· != '\n') = z.dropWhile (· != '\n') ++ y := by
        rw [List.dropWhile_append, if_neg]
        rw [List.isEmpty_iff, List.dropWhile_eq_nil_iff]
        intro hall
        simpa using hall '\n' hz
      cases h
      exact Or.inl (by simp [Source.afterBlank?, hd])
    · exact Or.inr ⟨z, rfl, hz⟩
  · next d more hb hl =>
    split at h
    · next hs =>
      cases h
      have hd : d ≠ '/' := by
        rintro rfl
        cases hs
      refine Or.inl ?_
      rw [List.cons_append, Source.afterBlank?]
      · simp [hs]
      · rintro left rfl
        exact absurd rfl hd
      · rintro left rfl
        exact absurd rfl hd
    · cases h
  · cases h

theorem afterBlank?_openComment {x : List Char} (h : IsOpenComment x) {y : List Char}
    (hy : '\n' ∉ y) : afterBlank? (x ++ y) = some [] := by
  obtain ⟨z, rfl, hz⟩ := h
  have hd : (z ++ y).dropWhile (· != '\n') = [] := by
    rw [List.dropWhile_eq_nil_iff]
    intro d hd
    rw [bne_iff_ne]
    rintro rfl
    exact (List.mem_append.mp hd).elim hz hy
  simp [Source.afterBlank?, hd]

/-- What is no blank in front of a boundary is none with it, but a block comment that is open may
end far behind. -/
theorem afterBlank?_boundary (hc : IsBoundary c) {d : Char} {x : List Char}
    (h : afterBlank? (d :: x) = none) :
    (∀ y, afterBlank? (d :: x ++ c :: y) = none) ∨
      afterBlank? (d :: x ++ [c]) = none ∧ ∃ z, d :: x = '/' :: '*' :: z := by
  have hslash := hc.ne_of_mem (d := '/') (by simp)
  have hstar := hc.ne_of_mem (d := '*') (by simp)
  by_cases hz : ∃ z, d :: x = '/' :: '*' :: z
  · obtain ⟨z, hz⟩ := hz
    rw [hz] at h ⊢
    exact Or.inr ⟨hc.afterBlock?_boundary h, z, rfl⟩
  · refine Or.inl fun y => ?_
    have hs : isSpace d = false := by
      unfold Source.afterBlank? at h
      split at h
      · next left he => exact absurd ⟨left, he⟩ hz
      · cases h
      · next he =>
        cases he
        simpa using h
      · next he => cases he
    rw [List.cons_append, Source.afterBlank?]
    · simp [hs]
    · rintro left rfl hl
      cases x with
      | nil => exact hstar (List.cons.inj hl).1
      | cons e x => exact hz ⟨x, by rw [(List.cons.inj hl).1]⟩
    · rintro left rfl hl
      cases x with
      | nil => exact hslash (List.cons.inj hl).1
      | cons e x =>
        rw [(List.cons.inj hl).1] at h
        cases h

end IsBoundary

end SassData.Source
