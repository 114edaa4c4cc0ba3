import SassData.Proofs.Value.OneLineText

/-!
# Units written and read

Units are written with a star between them and a slash in front of those below. No unit has either
character, so the text is cut again where it was put together. The caret of a negative power stands
in no unit at all, so a number that has units below alone is written in a way that is not read.
-/

namespace SassData

set_option autoImplicit false

namespace Unit

variable {unit chars : List Char} {c : Char}

/-! ## Characters of units -/

theorem ne_nil_of_isWord (h : isWord unit = true) : unit ≠ [] := by
  rintro rfl
  cases h

theorem isNameChar_of_isWord (h : isWord unit = true) (hc : c ∈ unit) :
    Text.isNameChar c = true ∨ c = '%' := by
  unfold isWord at h
  split at h
  · exact Or.inr (List.mem_singleton.mp hc)
  · rw [Bool.and_eq_true, List.all_eq_true] at h
    obtain ⟨hstart, hrest⟩ := h
    rcases List.mem_cons.mp hc with rfl | hc
    · exact Or.inl (Text.isNameChar_of_isNameStart hstart)
    · exact Or.inl (hrest c hc)
  · cases h

theorem isNameChar_of_isToken (h : isToken unit = true) (hc : c ∈ unit) :
    Text.isNameChar c = true ∨ c = '%' ∨ c = '\n' := by
  rw [isToken, Bool.or_eq_true, Bool.and_eq_true, beq_iff_eq] at h
  rcases h with hword | ⟨hlast, hword⟩
  · exact (isNameChar_of_isWord hword hc).imp_right Or.inl
  · obtain ⟨front, rfl⟩ := List.getLast?_eq_some_iff.mp hlast
    rw [List.dropLast_concat] at hword
    rcases List.mem_append.mp hc with hc | hc
    · exact (isNameChar_of_isWord hword hc).imp_right Or.inl
    · exact Or.inr (Or.inr (List.mem_singleton.mp hc))

/-- What stands between units, or makes a power, stands in no unit. -/
theorem not_mem_of_isToken (hc : c ∈ ['*', '/', '^']) (h : isToken unit = true) : c ∉ unit := by
  intro hmem
  have hall :
      ['*', '/', '^'].all (fun d => !Text.isNameChar d && d != '%' && d != '\n') = true := by
    decide
  have hd := List.all_eq_true.mp hall c hc
  simp only [Bool.and_eq_true, Bool.not_eq_true', bne_iff_ne] at hd
  obtain ⟨⟨hname, hpercent⟩, hbreak⟩ := hd
  rcases isNameChar_of_isToken h hmem with hn | hp | hb
  · rw [hname] at hn
    cases hn
  · exact hpercent hp
  · exact hbreak hb

theorem isToken_of_isWord (h : isWord unit = true) : isToken unit = true := by
  rw [isToken, h, Bool.true_or]

/-! ## Cutting a text -/

theorem pieces_eq_splitOn (separator : Char) (chars : List Char) :
    pieces separator chars = chars.splitOn separator := by
  induction chars with
  | nil => rfl
  | cons d rest ih =>
    rw [pieces, ih, List.splitOn_cons_eq_if_modifyHead]
    cases hs : rest.splitOn separator with
    | nil => exact absurd hs (List.splitOn_ne_nil separator rest)
    | cons first others => rfl

theorem tokens_intercalate {units : List (List Char)} (h : ∀ unit ∈ units, isWord unit = true) :
    tokens (List.intercalate ['*'] units) = units := by
  by_cases hne : units = []
  · rw [hne]
    rfl
  · have hstar (unit : List Char) (hm : unit ∈ units) : '*' ∉ unit :=
      not_mem_of_isToken (by decide) (isToken_of_isWord (h unit hm))
    rw [tokens, pieces_eq_splitOn, List.splitOn_intercalate '*' hstar hne, List.filter_eq_self]
    intro unit hm
    rw [Bool.not_eq_true', List.isEmpty_eq_false_iff]
    exact ne_nil_of_isWord (h unit hm)

theorem exists_pieces_cons (separator : Char) (chars : List Char) :
    ∃ first others, pieces separator chars = first :: others := by
  rw [pieces_eq_splitOn]
  exact List.exists_cons_of_ne_nil (List.splitOn_ne_nil separator chars)

theorem exists_piece_of_mem {separator : Char} (hc : c ≠ separator) (h : c ∈ chars) :
    ∃ piece ∈ pieces separator chars, c ∈ piece := by
  induction chars with
  | nil => cases h
  | cons d rest ih =>
    obtain ⟨first, others, hs⟩ := exists_pieces_cons separator rest
    rw [pieces, hs]
    dsimp only
    rcases List.mem_cons.mp h with rfl | h
    · rw [if_neg (by simpa using hc)]
      exact ⟨c :: first, List.mem_cons_self, List.mem_cons_self⟩
    · obtain ⟨piece, hm, hp⟩ := ih h
      rw [hs] at hm
      split
      · exact ⟨piece, List.mem_cons_of_mem [] hm, hp⟩
      · rcases List.mem_cons.mp hm with rfl | hm
        · exact ⟨d :: piece, List.mem_cons_self, List.mem_cons_of_mem d hp⟩
        · exact ⟨piece, List.mem_cons_of_mem _ hm, hp⟩

theorem exists_token_of_mem (hc : c ≠ '*') (h : c ∈ chars) : ∃ unit ∈ tokens chars, c ∈ unit := by
  obtain ⟨piece, hm, hp⟩ := exists_piece_of_mem hc h
  refine ⟨piece, List.mem_filter.mpr ⟨hm, ?_⟩, hp⟩
  rw [Bool.not_eq_true', List.isEmpty_eq_false_iff]
  exact List.ne_nil_of_mem hp

theorem halves_cons (d : Char) (chars : List Char) :
    halves (d :: chars) =
      if d = '/' then ([], chars) else (d :: (halves chars).1, (halves chars).2) := by
  by_cases hd : d = '/' <;> simp [halves, hd]

theorem halves_of_not_mem (h : '/' ∉ chars) : halves chars = (chars, []) := by
  induction chars with
  | nil => rfl
  | cons d rest ih =>
    rw [List.mem_cons, not_or] at h
    rw [halves_cons, if_neg (Ne.symm h.1), ih h.2]

theorem halves_append (h : '/' ∉ chars) (below : List Char) :
    halves (chars ++ '/' :: below) = (chars, below) := by
  induction chars with
  | nil => rw [List.nil_append, halves_cons, if_pos rfl]
  | cons d rest ih =>
    rw [List.mem_cons, not_or] at h
    rw [List.cons_append, halves_cons, if_neg (Ne.symm h.1), ih h.2]

theorem mem_halves (hc : c ≠ '/') (h : c ∈ chars) :
    c ∈ (halves chars).1 ∨ c ∈ (halves chars).2 := by
  induction chars with
  | nil => cases h
  | cons d rest ih =>
    rw [halves_cons]
    rcases List.mem_cons.mp h with rfl | h
    · rw [if_neg hc]
      exact Or.inl List.mem_cons_self
    · split
      · exact Or.inr h
      · exact (ih h).imp_left (List.mem_cons_of_mem d)

/-! ## Reading -/

def AreWords (units : List String) : Prop := ∀ unit ∈ units, isWord unit.toList = true

instance (units : List String) : Decidable (AreWords units) :=
  inferInstanceAs (Decidable (∀ unit ∈ units, isWord unit.toList = true))

/-- Units that are written without a power: some stand above, or there are none at all. -/
def IsWithoutPower (above below : List String) : Prop := above ≠ [] ∨ below = []

variable {above below : List String}

theorem AreWords.isWord (h : AreWords above) :
    ∀ unit ∈ above.map String.toList, isWord unit = true := by
  rw [List.forall_mem_map]
  exact h

theorem AreWords.isToken (h : AreWords above) :
    ∀ unit ∈ above.map String.toList, Unit.isToken unit = true :=
  fun unit hm => isToken_of_isWord (h.isWord unit hm)

theorem AreWords.not_mem_intercalate (h : AreWords above) :
    '/' ∉ List.intercalate ['*'] (above.map String.toList) := by
  have htext : ("*".intercalate above).toList = List.intercalate ['*'] (above.map String.toList) :=
    String.toList_intercalate
  rw [← htext]
  intro hm
  rcases Text.mem_intercalate hm with hstar | ⟨unit, hunit, hm⟩
  · exact absurd hstar (by decide)
  · exact not_mem_of_isToken (by decide) (isToken_of_isWord (h unit hunit)) hm

theorem read?_of_halves {text : String} {front back : List Char}
    (htext : halves text.toList = (front, back)) (habove : AreWords above) (hbelow : AreWords below)
    (hfront : tokens front = above.map String.toList)
    (hback : tokens back = below.map String.toList) : read? text = some (above, below) := by
  have hall : (above.map String.toList ++ below.map String.toList).all Unit.isToken = true := by
    rw [List.all_eq_true]
    exact List.forall_mem_append.mpr ⟨habove.isToken, hbelow.isToken⟩
  have hback' (units : List String) : (units.map String.toList).map String.ofList = units := by
    simp
  rw [read?, htext]
  dsimp only
  rw [hfront, hback, if_pos hall, hback', hback']

theorem read?_text (habove : AreWords above) (hbelow : AreWords below)
    (h : IsWithoutPower above below) : read? (text above below) = some (above, below) := by
  have hfront := tokens_intercalate habove.isWord
  have hback := tokens_intercalate hbelow.isWord
  have hslash := habove.not_mem_intercalate
  -- Without units below there is no slash, and the first half is all.
  by_cases hb : below = []
  · subst hb
    have htext : (text above []).toList = List.intercalate ['*'] (above.map String.toList) :=
      String.toList_intercalate
    have hhalves := halves_of_not_mem hslash
    rw [← htext] at hhalves hfront
    exact read?_of_halves hhalves habove hbelow hfront rfl
  · have ha : above ≠ [] := h.resolve_right hb
    have htext : (text above below).toList = List.intercalate ['*'] (above.map String.toList) ++
        '/' :: List.intercalate ['*'] (below.map String.toList) := by
      obtain ⟨unit, units, rfl⟩ := List.exists_cons_of_ne_nil ha
      obtain ⟨other, others, rfl⟩ := List.exists_cons_of_ne_nil hb
      simp only [text, String.toList_append, String.toList_intercalate, List.append_assoc]
      rfl
    have hhalves := halves_append hslash (List.intercalate ['*'] (below.map String.toList))
    rw [← htext] at hhalves
    exact read?_of_halves hhalves habove hbelow hfront hback

/-- A text with a character that is no unit's and stands between no units is not read. -/
theorem read?_eq_none_of_mem {text : String} (h : '^' ∈ text.toList) : read? text = none := by
  have hunit : ∃ unit ∈ tokens (halves text.toList).1 ++ tokens (halves text.toList).2,
      '^' ∈ unit := by
    rcases mem_halves (by decide) h with h | h
    · obtain ⟨unit, hm, hc⟩ := exists_token_of_mem (by decide) h
      exact ⟨unit, List.mem_append_left _ hm, hc⟩
    · obtain ⟨unit, hm, hc⟩ := exists_token_of_mem (by decide) h
      exact ⟨unit, List.mem_append_right _ hm, hc⟩
  obtain ⟨unit, hm, hc⟩ := hunit
  rw [read?]
  refine if_neg fun hall => ?_
  exact not_mem_of_isToken (by decide) (List.all_eq_true.mp hall unit hm) hc

theorem caret_mem_text (h : below ≠ []) : '^' ∈ (text [] below).toList := by
  obtain ⟨unit, rest, rfl⟩ := List.exists_cons_of_ne_nil h
  cases rest with
  | nil => simp [text]
  | cons => simp [text]

end Unit

namespace Number

/-- The text of units is read back as these units, in their order, unless it has a power: then it is
not read. So different units without a power have different texts. -/
theorem read?_unitText (n : Number) (habove : Unit.AreWords n.above)
    (hbelow : Unit.AreWords n.below) :
    (Unit.IsWithoutPower n.above n.below →
      Unit.read? n.unitText = some (n.above, n.below) ∧
        (∀ m, withUnit m n.unitText = .ok ⟨m, n.above, n.below⟩) ∧
        ∀ other : Number, Unit.AreWords other.above → Unit.AreWords other.below →
          Unit.IsWithoutPower other.above other.below → n.unitText = other.unitText →
            n.above = other.above ∧ n.below = other.below) ∧
      (¬ Unit.IsWithoutPower n.above n.below →
        Unit.read? n.unitText = none ∧
          ∀ m, withUnit m n.unitText = .error (.invalidUnit n.unitText)) := by
  constructor
  · intro hn
    have hread : Unit.read? n.unitText = some (n.above, n.below) :=
      Unit.read?_text habove hbelow hn
    refine ⟨hread, fun m => by rw [withUnit, hread], ?_⟩
    intro other hothera hotherb hother heq
    have hread' : Unit.read? other.unitText = some (other.above, other.below) :=
      Unit.read?_text hothera hotherb hother
    rw [← heq, hread, Option.some.injEq, Prod.mk.injEq] at hread'
    exact hread'
  · intro hn
    rw [Unit.IsWithoutPower, not_or, Decidable.not_not] at hn
    have hread : Unit.read? n.unitText = none := by
      apply Unit.read?_eq_none_of_mem
      rw [unitText, hn.1]
      exact Unit.caret_mem_text hn.2
    exact ⟨hread, fun m => by rw [withUnit, hread]⟩

/-- A unit that comes twice above the line, a percent sign between, and one below. -/
theorem read?_unitText_repeated :
    Unit.AreWords ["px", "%", "px"] ∧ Unit.AreWords ["_s-1"] ∧
      Unit.IsWithoutPower ["px", "%", "px"] ["_s-1"] ∧
      unitText ⟨.int 1, ["px", "%", "px"], ["_s-1"]⟩ = "px*%*px/_s-1" ∧
      Unit.read? "px*%*px/_s-1" = some (["px", "%", "px"], ["_s-1"]) := by
  have habove : Unit.AreWords ["px", "%", "px"] := by decide
  have hbelow : Unit.AreWords ["_s-1"] := by decide
  have hpower : Unit.IsWithoutPower ["px", "%", "px"] ["_s-1"] := Or.inl (List.cons_ne_nil _ _)
  have htext : unitText ⟨.int 1, ["px", "%", "px"], ["_s-1"]⟩ = "px*%*px/_s-1" := by decide
  have hread := (read?_unitText ⟨.int 1, ["px", "%", "px"], ["_s-1"]⟩ habove hbelow).1 hpower
  rw [htext] at hread
  exact ⟨habove, hbelow, hpower, htext, hread.1⟩

end Number

end SassData
