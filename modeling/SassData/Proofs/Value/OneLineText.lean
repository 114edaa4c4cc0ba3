import SassData.Proofs.Color.ColorRange
import SassData.Proofs.Quotation.QuotedLiterals
import SassData.Proofs.Unit.ReducedUnits

/-!
# Values on one line

No token of an expression holds a line break, and neither does anything that the text of a value is
put together with. So the text of a value without variables is always one line, and so is what comes
between marks when it is quoted.
-/

namespace SassData

set_option autoImplicit false

namespace Text

def IsOneLine (s : String) : Prop := '\n' ∉ s.toList

instance (s : String) : Decidable (IsOneLine s) := inferInstanceAs (Decidable (_ ∉ _))

variable {s t : String}

theorem isOneLine_append : IsOneLine (s ++ t) ↔ IsOneLine s ∧ IsOneLine t := by
  simp only [IsOneLine, String.toList_append, List.mem_append, not_or]

theorem isOneLine_ite {p : Prop} [Decidable p] (hs : IsOneLine s) (ht : IsOneLine t) :
    IsOneLine (if p then s else t) := by
  split
  · exact hs
  · exact ht

theorem isOneLine_ofList {text : List Char} : IsOneLine (String.ofList text) ↔ '\n' ∉ text := by
  rw [IsOneLine, String.toList_ofList]

theorem mem_intercalate {separator : String} {texts : List String} {c : Char}
    (h : c ∈ (separator.intercalate texts).toList) :
    c ∈ separator.toList ∨ ∃ text ∈ texts, c ∈ text.toList := by
  induction texts with
  | nil => exact absurd h List.not_mem_nil
  | cons text rest ih =>
    cases rest with
    | nil => exact Or.inr ⟨text, List.mem_cons_self, by simpa using h⟩
    | cons next rest =>
      rw [String.intercalate_cons_cons, String.toList_append, String.toList_append,
        List.mem_append, List.mem_append] at h
      rcases h with (htext | hseparator) | hrest
      · exact Or.inr ⟨text, List.mem_cons_self, htext⟩
      · exact Or.inl hseparator
      · refine (ih hrest).imp_right ?_
        rintro ⟨t, hm, hc⟩
        exact ⟨t, List.mem_cons_of_mem text hm, hc⟩

theorem isOneLine_intercalate {separator : String} {texts : List String}
    (hs : IsOneLine separator) (ht : ∀ text ∈ texts, IsOneLine text) :
    IsOneLine (separator.intercalate texts) := by
  intro h
  rcases mem_intercalate h with hn | ⟨text, hm, hn⟩
  · exact hs hn
  · exact ht text hm hn

theorem isOneLine_natCast (n : Nat) : IsOneLine (toString n) := by
  have hbreak : isDigit '\n' ≠ true := by decide
  rw [IsOneLine, Nat.toString_eq_repr, Nat.toList_repr]
  intro h
  exact hbreak (Source.isDigit_of_mem_toDigits h)

theorem isOneLine_intCast (n : Int) : IsOneLine (toString n) := by
  rw [Int.toString_eq_repr, Int.repr_eq_if]
  split
  · exact isOneLine_natCast _
  · exact isOneLine_append.mpr ⟨by decide, isOneLine_natCast _⟩

theorem not_mem_hex (width n : Nat) : '\n' ∉ hex width n := by
  induction width generalizing n with
  | zero => exact List.not_mem_nil
  | succ width ih =>
    have hdigit : ∀ d < 16, '\n' ≠ hexDigit d := by decide
    rw [hex, List.mem_append, List.mem_singleton, not_or]
    exact ⟨ih _, hdigit _ (Nat.mod_lt n (by decide))⟩

theorem not_mem_payload {text : List Char} (h : '\n' ∉ text) : '\n' ∉ payload text := by
  unfold payload
  split
  · next mark inner hu =>
    obtain ⟨-, rfl⟩ := enclosed_of_unwrap? hu
    intro hn
    exact h (List.mem_cons_of_mem _ (List.mem_append_left _ hn))
  · exact h

theorem isOneLine_unquote (h : IsOneLine s) : IsOneLine (unquote s) :=
  isOneLine_ofList.mpr (not_mem_payload h)

theorem not_mem_escape {mark : Char} {text : List Char} (h : '\n' ∉ text) :
    '\n' ∉ escape [mark] text := by
  induction text with
  | nil => exact List.not_mem_nil
  | cons c rest ih =>
    obtain ⟨hc, hrest⟩ := not_or.mp (mt List.mem_cons.mpr h)
    have hrest := ih hrest
    rw [escape_singleton_cons]
    split
    · simp only [List.mem_cons, not_or]
      exact ⟨by decide, hc, hrest⟩
    · simp only [List.mem_cons, not_or]
      exact ⟨hc, hrest⟩

theorem isOneLine_quote {mark : Char} (hm : isMark mark = true) (h : IsOneLine s) :
    IsOneLine (quote s (String.singleton mark)) := by
  have hmark : ∀ c, isMark c = true → '\n' ≠ c := by
    rintro c hc rfl
    revert hc
    decide
  have hfor : '\n' ≠ markFor mark s.toList := hmark _ (isMark_markFor hm)
  rw [IsOneLine, toList_quote]
  simp only [List.mem_cons, List.mem_append, List.not_mem_nil, or_false, not_or]
  exact ⟨hfor, not_mem_escape (not_mem_payload h), hfor⟩

end Text

open Text (IsOneLine isOneLine_append isOneLine_ite isOneLine_ofList isOneLine_intercalate
  isOneLine_natCast)

/-! ## Numbers and colours -/

namespace Number

theorem not_mem_fractionDigits (n : Nat) : '\n' ∉ fractionDigits n := by
  have hdigits := isOneLine_natCast (n % tenPow places)
  intro h
  have hmem := List.mem_reverse.mp ((List.dropWhile_sublist _).mem (List.mem_reverse.mp h))
  rcases List.mem_append.mp hmem with hzero | hdigit
  · exact absurd (List.eq_of_mem_replicate hzero) (by decide)
  · exact hdigits hdigit

theorem isOneLine_fixedText (negative : Bool) (n : Nat) : IsOneLine (fixedText negative n) := by
  have hwhole := isOneLine_natCast (n / tenPow places)
  have hfraction := not_mem_fractionDigits n
  have hbody : '\n' ∉ (toString (n / tenPow places)).toList ++
      if (fractionDigits n).isEmpty then [] else '.' :: fractionDigits n := by
    rw [List.mem_append, not_or]
    refine ⟨hwhole, ?_⟩
    split
    · exact List.not_mem_nil
    · exact mt List.mem_cons.mp (not_or.mpr ⟨by decide, hfraction⟩)
  simp only [fixedText, isOneLine_ofList]
  split
  · exact mt List.mem_cons.mp (not_or.mpr ⟨by decide, hbody⟩)
  · exact hbody

theorem Binary64.isOneLine_styleText (x : Binary64) : IsOneLine x.styleText := by
  cases x with
  | nan s i => exact (by decide : IsOneLine "NaN")
  | infinity s =>
    cases s with
    | true => exact (by decide : IsOneLine "-Infinity")
    | false => exact (by decide : IsOneLine "Infinity")
  | finite s u hu =>
    have hwhole := isOneLine_natCast (roundQuotient u unitsInOne)
    have hnegative := isOneLine_append.mpr ⟨(by decide : IsOneLine "-"), hwhole⟩
    have hfixed (n : Nat) := isOneLine_fixedText s n
    simp only [Binary64.styleText]
    exact isOneLine_ite (isOneLine_ite hnegative hwhole) (hfixed _)

theorem Magnitude.isOneLine_styleText (m : Magnitude) : IsOneLine m.styleText := by
  cases m with
  | int n => exact Text.isOneLine_intCast n
  | float x => exact x.isOneLine_styleText

end Number

theorem Unit.mem_text {above below : List String} {c : Char} (h : c ∈ (text above below).toList) :
    (∃ token ∈ above ++ below, c ∈ token.toList) ∨ c ∈ "*/()^-1".toList := by
  have hsign {sign : String} (hc : c ∈ sign.toList) (hs : sign.toList ⊆ "*/()^-1".toList) :
      (∃ token ∈ above ++ below, c ∈ token.toList) ∨ c ∈ "*/()^-1".toList := Or.inr (hs hc)
  have hproduct {tokens : List String} (hc : c ∈ ("*".intercalate tokens).toList)
      (hsub : ∀ token ∈ tokens, token ∈ above ++ below) :
      (∃ token ∈ above ++ below, c ∈ token.toList) ∨ c ∈ "*/()^-1".toList := by
    rcases Text.mem_intercalate hc with hstar | ⟨token, hm, hc⟩
    · exact hsign hstar (by decide)
    · exact Or.inl ⟨token, hsub token hm, hc⟩
  have habove (token : String) : token ∈ above → token ∈ above ++ below := List.mem_append_left _
  have hbelow (token : String) : token ∈ below → token ∈ above ++ below := List.mem_append_right _
  unfold text at h
  split at h
  · exact hproduct h habove
  · rw [String.toList_append, List.mem_append] at h
    rcases h with hc | hc
    · exact Or.inl ⟨_, hbelow _ List.mem_cons_self, hc⟩
    · exact hsign hc (by decide)
  · simp only [String.toList_append, List.mem_append] at h
    rcases h with (hc | hc) | hc
    · exact hsign hc (by decide)
    · exact hproduct hc hbelow
    · exact hsign hc (by decide)
  · simp only [String.toList_append, List.mem_append] at h
    rcases h with (hc | hc) | hc
    · exact hproduct hc habove
    · exact hsign hc (by decide)
    · exact hproduct hc hbelow

theorem Number.not_mem_unitText {n : Number} (h : n.IsReduced) :
    ∀ c ∈ ['\n', '\\'], c ∉ n.unitText.toList := by
  intro c hc ht
  obtain ⟨hpercent, halpha, hlow, hsign⟩ : c ∉ "%".toList ∧ c.isAlpha = false ∧ c ≠ '_' ∧
      c ∉ "*/()^-1".toList := by
    simp only [List.mem_cons, List.not_mem_nil, or_false] at hc
    rcases hc with rfl | rfl <;> decide
  rcases Unit.mem_text ht with ⟨token, hm, hct⟩ | hct
  · rcases h.plain token hm with rfl | ⟨-, hplain⟩
    · exact hpercent hct
    · rcases hplain c hct with hletter | hletter
      · rw [halpha] at hletter
        exact Bool.false_ne_true hletter
      · exact hlow hletter
  · exact hsign hct

theorem Number.isOneLine_css {n : Number} (h : n.IsReduced) : IsOneLine n.css :=
  isOneLine_append.mpr
    ⟨n.magnitude.isOneLine_styleText, not_mem_unitText h '\n' List.mem_cons_self⟩

theorem Color.isOneLine_css {c : Color} (h : ∀ text, c.spelling = some text → IsOneLine text) :
    IsOneLine c.css := by
  unfold Color.css
  split
  · next text hs => exact h text hs
  · split
    · rw [isOneLine_ofList, List.mem_cons, not_or]
      refine ⟨by decide, fun hn => ?_⟩
      obtain ⟨n, -, hn⟩ := List.mem_flatMap.mp hn
      exact Text.not_mem_hex 2 _ hn
    · have hred := isOneLine_natCast c.red.toNat
      have hgreen := isOneLine_natCast c.green.toNat
      have hblue := isOneLine_natCast c.blue.toNat
      have halpha := c.alpha.isOneLine_styleText
      have hsigns : IsOneLine "rgba(" ∧ IsOneLine ", " ∧ IsOneLine ")" := by decide
      obtain ⟨hopen, hcomma, hclose⟩ := hsigns
      simp only [isOneLine_append]
      exact ⟨⟨⟨⟨⟨⟨⟨⟨hopen, hred⟩, hcomma⟩, hgreen⟩, hcomma⟩, hblue⟩, hcomma⟩, halpha⟩, hclose⟩

/-! ## Values -/

namespace Value

def IsOneLine : Value → Prop := PartsAre fun part => Text.IsOneLine part.css

theorem isOneLine_parens {text : String} (yes : Bool) (h : Text.IsOneLine text) :
    Text.IsOneLine (parens yes text) := by
  have hparens : Text.IsOneLine "(" ∧ Text.IsOneLine ")" := by decide
  refine isOneLine_ite ?_ h
  exact isOneLine_append.mpr ⟨isOneLine_append.mpr ⟨hparens.1, h⟩, hparens.2⟩

theorem isOneLine_listText {separator : Separator} {bracketed : Bool} {texts : List String}
    (h : ∀ text ∈ texts, Text.IsOneLine text) :
    Text.IsOneLine (listText texts separator bracketed) := by
  have hempty : Text.IsOneLine "[]" ∧ Text.IsOneLine "()" := by decide
  have hopen : Text.IsOneLine "[" ∧ Text.IsOneLine "(" := by decide
  have hclose : Text.IsOneLine "]" ∧ Text.IsOneLine ",]" ∧ Text.IsOneLine ",)" := by decide
  have henclosed {opening body closing : String} (ho : Text.IsOneLine opening)
      (hb : Text.IsOneLine body) (hc : Text.IsOneLine closing) :
      Text.IsOneLine (opening ++ body ++ closing) :=
    isOneLine_append.mpr ⟨isOneLine_append.mpr ⟨ho, hb⟩, hc⟩
  have hjoiner : Text.IsOneLine separator.joiner := by cases separator <;> decide
  have hbody := isOneLine_intercalate hjoiner h
  unfold listText
  split
  · exact isOneLine_ite hempty.1 hempty.2
  · have hone := h _ List.mem_cons_self
    exact isOneLine_ite (henclosed hopen.1 hone hclose.2.1) (henclosed hopen.2 hone hclose.2.2)
  · exact isOneLine_ite (henclosed hopen.1 hbody hclose.1) hbody

mutual

theorem isOneLine_css (v : Value) (h : v.IsOneLine) : Text.IsOneLine v.css := by
  match v with
  | null => decide
  | bool b => cases b <;> decide
  | list items separator bracketed =>
    exact isOneLine_listText (isOneLine_itemsCss separator items (partsAre_list_iff.mp h))
  | map pairs =>
    have hpairs := isOneLine_pairsCss pairs (partsAre_map_iff.mp h)
    have hparens : Text.IsOneLine "(" ∧ Text.IsOneLine ", " ∧ Text.IsOneLine ")" := by decide
    simp only [css, mapText, isOneLine_append]
    exact ⟨⟨hparens.1, isOneLine_intercalate hparens.2.1 hpairs⟩, hparens.2.2⟩
  | number _ | color _ | string _ | custom _ _ => exact (partsAre_single rfl).mp h

theorem isOneLine_itemsCss (outer : Separator) (items : List Value)
    (h : ∀ v ∈ items, v.IsOneLine) : ∀ text ∈ itemsCss outer items, Text.IsOneLine text := by
  match items with
  | [] => exact nofun
  | item :: rest =>
    obtain ⟨hitem, hrest⟩ := List.forall_mem_cons.mp h
    exact List.forall_mem_cons.mpr
      ⟨isOneLine_parens _ (isOneLine_css item hitem), isOneLine_itemsCss outer rest hrest⟩

theorem isOneLine_pairsCss (pairs : List (Value × Value))
    (h : ∀ pair ∈ pairs, pair.1.IsOneLine ∧ pair.2.IsOneLine) :
    ∀ text ∈ pairsCss pairs, Text.IsOneLine text := by
  match pairs with
  | [] => exact nofun
  | (key, v) :: rest =>
    obtain ⟨⟨hkey, hv⟩, hrest⟩ := List.forall_mem_cons.mp h
    have hcolon : Text.IsOneLine ": " := by decide
    refine List.forall_mem_cons.mpr ⟨?_, isOneLine_pairsCss rest hrest⟩
    simp only [isOneLine_append]
    exact ⟨⟨isOneLine_css key hkey, hcolon⟩, isOneLine_parens _ (isOneLine_css v hv)⟩

end

end Value

/-! ## Tokens -/

namespace Source

theorem isOneLine_of_isStringLiteral {text : String} (h : IsStringLiteral text) :
    Text.IsOneLine text := by
  obtain ⟨mark, rest, hm, ht, hr⟩ := h
  obtain ⟨x, hx, -, hbreak⟩ := exists_of_afterString? hm hr
  have hmark : '\n' ≠ mark := by
    rintro rfl
    revert hm
    decide
  rw [List.append_nil] at hx
  rw [Text.IsOneLine, ht, hx, List.mem_cons, not_or]
  exact ⟨hmark, hbreak⟩

end Source

end SassData
