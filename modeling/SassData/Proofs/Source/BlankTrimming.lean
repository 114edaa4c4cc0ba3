import SassData.Proofs.Source.CharacterPlaces

/-!
# Expressions with blanks around them

No token of an expression begins with a blank, and none that is no string goes past one. So an
expression that is trimmed is still read as itself; of the blanks in the wide sense only those that
stand between tokens can be around it.
-/

namespace SassData.Source

set_option autoImplicit false

open Text (isBlank trimLeft trim)

/-! ## Blank characters -/

def blankCodes : List Nat :=
  [9, 10, 11, 12, 13, 28, 29, 30, 31, 32, 0x85, 0xa0, 0x1680, 0x2000, 0x2001, 0x2002, 0x2003,
    0x2004, 0x2005, 0x2006, 0x2007, 0x2008, 0x2009, 0x200a, 0x2028, 0x2029, 0x202f, 0x205f, 0x3000]

theorem toNat_mem_blankCodes {c : Char} (h : isBlank c = true) : c.toNat ∈ blankCodes := by
  simp only [isBlank, Bool.or_eq_true, Bool.and_eq_true, decide_eq_true_eq, beq_iff_eq] at h
  simp only [blankCodes, List.mem_cons, List.not_mem_nil, or_false]
  omega

/-- No blank has a part in a token. -/
theorem blanks_apart : ∀ n ∈ blankCodes, let c := Char.ofNat n
    (!Text.isDigit c && !Text.isNameChar c && !Text.isWordChar c && !Text.isMark c &&
      !(c ∈ ['.', '+', '%', '(', '=', '*', '/', '!'])) = true ∧
      isPlainSymbol c = true ∧ c ∉ specials ∧
        ∀ entry ∈ spellings, entry.1.toList.head? ≠ some c := by
  decide +kernel

theorem apart_of_isBlank {c : Char} (h : isBlank c = true) :
    IsBoundary c ∧ isPlainSymbol c = true ∧ c ∉ specials ∧
      ∀ entry ∈ spellings, entry.1.toList.head? ≠ some c := by
  have hc := blanks_apart c.toNat (toNat_mem_blankCodes h)
  dsimp only at hc
  rw [Char.ofNat_toNat] at hc
  refine ⟨?_, hc.2⟩
  have hb := hc.1
  simp only [Bool.and_eq_true, Bool.not_eq_true', decide_eq_false_iff_not] at hb
  exact ⟨hb.1.1.1.1, hb.1.1.1.2, hb.1.1.2, hb.1.2, hb.2⟩

theorem exprToken?_blank {c : Char} (h : isBlank c = true) (more : List Char) :
    exprToken? (c :: more) = none := by
  obtain ⟨-, hplain, -, hspellings⟩ := apart_of_isBlank h
  rw [exprToken?_plainSymbol hplain, Option.map_eq_none_iff]
  cases hs : symbol? (c :: more) with
  | none => rfl
  | some found =>
    obtain ⟨symbol, rest⟩ := found
    obtain ⟨spelling, hmem, htext⟩ := symbol?_spelling hs
    have hhead := hspellings _ hmem
    have hne : ∀ entry ∈ spellings, entry.1.toList ≠ [] := by decide
    cases hl : spelling.toList with
    | nil => exact absurd hl (hne _ hmem)
    | cons d more =>
      rw [hl, List.cons_append] at htext
      rw [hl, (List.cons.inj htext).1] at hhead
      exact absurd rfl hhead

theorem afterBlank?_space {c : Char} (h : isSpace c = true) (more : List Char) :
    afterBlank? (c :: more) = some more := by
  simp only [isSpace, List.mem_cons, List.not_mem_nil, or_false, decide_eq_true_eq] at h
  rcases h with rfl | rfl | rfl | rfl | rfl <;> rfl

/-- A blank in front of a text is passed over or begins no token. -/
theorem tokens_blank {c : Char} (h : isBlank c = true) (more : List Char) :
    tokens (.expression false) (c :: more) = tokens (.expression false) more ∨
      tokens (.expression false) (c :: more) = [.unknown] := by
  cases hs : isSpace c with
  | true => exact Or.inl (tokens_of_blank (afterBlank?_space hs more))
  | false =>
    have hslash : c ≠ '/' := by
      rintro rfl
      cases h
    exact Or.inr (@tokens_of_none (.expression false) _ (afterBlank?_of_ne hs hslash more)
      (exprToken?_blank h more) (List.cons_ne_nil c more))

/-! ## Expressions between blanks -/

section Between

variable {c : Char} {x y : List Char} {e : Expr}

theorem readExpr_of_tokens {text : String}
    (h : tokens (.expression false) text.toList = tokens (.expression false) x)
    (he : readExpr text = .ok e) : readExpr (String.ofList x) = .ok e := by
  rw [readExpr_eq_ok_iff] at he ⊢
  rwa [String.toList_ofList, ← h]

theorem readExpr_unknown {text : String}
    (h : Broken (tokens (.expression false) text.toList)) : readExpr text ≠ .ok e := by
  intro he
  obtain ⟨r, hr, -⟩ := readExpr_eq_ok_iff.mp he
  rw [Reading.pushAll_broken h] at hr
  cases hr

theorem readExpr_of_cons (hc : isBlank c = true) (h : readExpr (String.ofList (c :: x)) = .ok e) :
    readExpr (String.ofList x) = .ok e := by
  rcases tokens_blank hc x with hsame | hunknown
  · exact readExpr_of_tokens (by rw [String.toList_ofList, hsame]) h
  · refine absurd h (readExpr_unknown ?_)
    rw [String.toList_ofList, hunknown]
    exact .foreign rfl

theorem readExpr_of_append (hc : isBlank c = true) (hn : IsNested .start x)
    (h : readExpr (String.ofList (x ++ [c])) = .ok e) : readExpr (String.ofList x) = .ok e := by
  rcases tokens_boundary (apart_of_isBlank hc).1 false x with hcut | ⟨-, hbroken⟩ | ⟨hcomment, -⟩
  · have htokens := hcut []
    rcases tokens_blank hc [] with hsame | hunknown
    · rw [hsame, tokens_nil, List.append_nil] at htokens
      exact readExpr_of_tokens (by rw [String.toList_ofList, htokens]) h
    · refine absurd h (readExpr_unknown ?_)
      rw [String.toList_ofList, htokens, hunknown]
      induction tokens (.expression false) x with
      | nil => exact .foreign rfl
      | cons t ts ih => exact .cons ih
  · exact absurd h (readExpr_unknown (by rwa [String.toList_ofList]))
  · exact absurd hn (hcomment.not_isNested 0)

theorem readExpr_of_blanks_left (hx : ∀ c ∈ x, isBlank c = true)
    (h : readExpr (String.ofList (x ++ y)) = .ok e) : readExpr (String.ofList y) = .ok e := by
  induction x with
  | nil => exact h
  | cons c x ih =>
    obtain ⟨hc, hx⟩ := List.forall_mem_cons.mp hx
    exact ih hx (readExpr_of_cons hc h)

theorem readExpr_of_blanks_right (hy : ∀ c ∈ y, isBlank c = true) (hn : IsNested .start (x ++ y))
    (h : readExpr (String.ofList (x ++ y)) = .ok e) : readExpr (String.ofList x) = .ok e := by
  induction y generalizing x with
  | nil => rwa [List.append_nil] at h
  | cons c y ih =>
    obtain ⟨hc, hy⟩ := List.forall_mem_cons.mp hy
    have hcons : x ++ c :: y = x ++ [c] ++ y := by simp
    rw [hcons] at h hn
    exact readExpr_of_append hc hn.of_append_left.of_append_left (ih hy hn h)

theorem along_blanks (hx : ∀ c ∈ x, isBlank c = true) (depth : Int) :
    (Spot.outside depth).along x = .outside depth :=
  along_of_not_special (fun c hc => (apart_of_isBlank (hx c hc)).2.2.1) depth

theorem exists_trimLeft (text : List Char) :
    ∃ x, text = x ++ trimLeft text ∧ ∀ c ∈ x, isBlank c = true :=
  ⟨text.takeWhile isBlank, List.takeWhile_append_dropWhile.symm, fun _ hc =>
    List.mem_takeWhile_imp hc⟩

theorem exists_trim (text : List Char) :
    ∃ x y, text = x ++ trim text ++ y ∧ (∀ c ∈ x, isBlank c = true) ∧
      ∀ c ∈ y, isBlank c = true := by
  obtain ⟨x, hx, hblank⟩ := exists_trimLeft text
  obtain ⟨y, hy, hblank'⟩ := exists_trimLeft (trimLeft text).reverse
  refine ⟨x, y.reverse, ?_, hblank, fun c hc => hblank' c (List.mem_reverse.mp hc)⟩
  have hleft := congrArg List.reverse hy
  rw [List.reverse_reverse, List.reverse_append] at hleft
  rw [trim, List.append_assoc, ← hleft]
  exact hx

theorem isBlank_of_trim_eq_nil {text : List Char} (h : trim text = []) :
    ∀ c ∈ text, isBlank c = true := by
  obtain ⟨x, y, htext, hx, hy⟩ := exists_trim text
  rw [h, List.append_nil] at htext
  rw [htext]
  exact fun c hc => (List.mem_append.mp hc).elim (hx c) (hy c)

theorem isNested_trimLeft {text : List Char} (h : IsNested .start text) :
    IsNested .start (trimLeft text) := by
  obtain ⟨x, hx, hblank⟩ := exists_trimLeft text
  rw [hx] at h
  have hrest := h.of_append_right
  rwa [Spot.start, along_blanks hblank] at hrest

theorem readExpr_trimLeft {text : List Char} (h : readExpr (String.ofList text) = .ok e) :
    readExpr (String.ofList (trimLeft text)) = .ok e := by
  obtain ⟨x, hx, hblank⟩ := exists_trimLeft text
  rw [hx] at h
  exact readExpr_of_blanks_left hblank h

theorem readExpr_trim {text : List Char} (h : readExpr (String.ofList text) = .ok e)
    (hn : IsNested .start text) : readExpr (String.ofList (trim text)) = .ok e := by
  obtain ⟨x, y, htext, hx, hy⟩ := exists_trim text
  rw [htext] at h hn
  rw [List.append_assoc] at h hn
  have hrest := hn.of_append_right
  rw [Spot.start, along_blanks hx] at hrest
  exact readExpr_of_blanks_right hy hrest (readExpr_of_blanks_left hx h)

theorem readExpr_nil_ne : readExpr (String.ofList []) ≠ .ok e := by
  intro h
  obtain ⟨r, hr, hfinish, -⟩ := readExpr_eq_ok_iff.mp h
  cases hr
  cases hfinish

theorem trim_ne_nil {text : List Char} (h : readExpr (String.ofList text) = .ok e)
    (hn : IsNested .start text) : trim text ≠ [] := by
  intro hnil
  have htrim := readExpr_trim h hn
  rw [hnil] at htrim
  exact readExpr_nil_ne htrim

/-- What is broken off within brackets or a string is no expression, trimmed or not. -/
theorem readExpr_trim_ne {text : List Char} (hn : IsNested .start text)
    (h : Spot.start.along text ≠ .start) : readExpr (String.ofList (trim text)) ≠ .ok e := by
  intro hread
  obtain ⟨x, y, htext, hx, hy⟩ := exists_trim text
  rw [htext, List.append_assoc] at hn h
  have hrest := hn.of_append_right
  rw [Spot.along_append, Spot.start, along_blanks hx, Spot.along_append] at h
  rw [Spot.start, along_blanks hx] at hrest
  obtain ⟨-, -, -, -, -, halong⟩ :=
    openings_of_readExpr hread (by rw [String.toList_ofList]; exact hrest.of_append_left)
  rw [String.toList_ofList, Spot.start] at halong
  rw [halong, along_blanks hy] at h
  exact h rfl

theorem trim_append_comma {text : List Char} (h : trimLeft text ≠ []) (more : List Char) :
    ∃ rest, trim (text ++ ',' :: more) = trimLeft text ++ ',' :: rest := by
  have hleft : trimLeft (text ++ ',' :: more) = trimLeft text ++ ',' :: more := by
    have hkept : ¬ (text.dropWhile isBlank).isEmpty = true := by
      rw [List.isEmpty_iff]
      exact h
    rw [trimLeft, List.dropWhile_append, if_neg hkept, trimLeft]
  have hcomma : trimLeft (',' :: (trimLeft text).reverse) = ',' :: (trimLeft text).reverse :=
    List.dropWhile_cons_of_neg (by decide)
  have hreverse : (trimLeft text ++ ',' :: more).reverse =
      more.reverse ++ ',' :: (trimLeft text).reverse := by simp
  have hright : ∃ rest, trimLeft (more.reverse ++ ',' :: (trimLeft text).reverse) =
      rest ++ ',' :: (trimLeft text).reverse := by
    rw [trimLeft, List.dropWhile_append]
    split
    · exact ⟨[], hcomma⟩
    · exact ⟨_, rfl⟩
  obtain ⟨rest, hrest⟩ := hright
  exact ⟨rest.reverse, by rw [trim, hleft, hreverse, hrest]; simp⟩

/-- What goes on behind a comma is not read as the expression in front of it. -/
theorem readExpr_trim_comma_ne {text : List Char} (h : readExpr (String.ofList text) = .ok e)
    (hn : IsNested .start text) (more : List Char) :
    readExpr (String.ofList (trim (text ++ ',' :: more))) ≠ .ok e := by
  have hne : trimLeft text ≠ [] := by
    intro hnil
    have hleft := readExpr_trimLeft h
    rw [hnil] at hleft
    exact readExpr_nil_ne hleft
  obtain ⟨rest, hrest⟩ := trim_append_comma hne more
  have hcomma := readExpr_comma_ne (readExpr_trimLeft h)
    (by rw [String.toList_ofList]; exact isNested_trimLeft hn) rest
  rwa [String.toList_ofList, ← hrest] at hcomma

end Between

end SassData.Source
