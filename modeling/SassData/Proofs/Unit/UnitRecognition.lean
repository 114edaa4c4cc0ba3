import SassData.Proofs.Unit.UnitTexts

/-!
# Texts that are read as units

A text is cut at its first slash, and each half at every star. It is read if each piece that is not
empty is a percent sign or a name, and these pieces are the units. One thing more is read: behind a
sign or a name a single line break is let through, and it stays in the unit and in what is printed
of it. Where that does not happen, units have the characters of names and no others.
-/

namespace SassData

set_option autoImplicit false

namespace Unit

variable {c : Char} {piece : List Char}

/-! ## Words -/

def IsLetter (c : Char) : Prop := 'a' ≤ c ∧ c ≤ 'z' ∨ 'A' ≤ c ∧ c ≤ 'Z'

def IsDigit (c : Char) : Prop := '0' ≤ c ∧ c ≤ '9'

def IsNameChar (c : Char) : Prop := IsLetter c ∨ IsDigit c ∨ c = '_' ∨ c = '-'

/-- A percent sign, or a letter or an underscore and behind it letters, digits, underscores and
hyphens. -/
inductive IsWord : List Char → Prop
  | percent : IsWord ['%']
  | name {c : Char} {rest : List Char} (first : IsLetter c ∨ c = '_')
    (others : ∀ d ∈ rest, IsNameChar d) : IsWord (c :: rest)

def IsBrokenWord (piece : List Char) : Prop := ∃ word, IsWord word ∧ piece = word ++ ['\n']

def IsWordChar (c : Char) : Prop := IsNameChar c ∨ c = '%'

theorem isAlpha_iff : c.isAlpha = true ↔ IsLetter c := by
  have hupper : c.isUpper = true ↔ 'A' ≤ c ∧ c ≤ 'Z' := decide_eq_true_iff
  have hlower : c.isLower = true ↔ 'a' ≤ c ∧ c ≤ 'z' := by
    change (decide ('a' ≤ c) && decide (c ≤ 'z')) = true ↔ _
    rw [Bool.and_eq_true, decide_eq_true_eq, decide_eq_true_eq]
  change (c.isUpper || c.isLower) = true ↔ _
  rw [Bool.or_eq_true, hupper, hlower, or_comm, IsLetter]

theorem isDigit_iff : c.isDigit = true ↔ IsDigit c := by
  change (decide ('0' ≤ c) && decide (c ≤ '9')) = true ↔ _
  rw [Bool.and_eq_true, decide_eq_true_eq, decide_eq_true_eq, IsDigit]

theorem isNameStart_iff : Text.isNameStart c = true ↔ IsLetter c ∨ c = '_' := by
  rw [Text.isNameStart, Bool.or_eq_true, isAlpha_iff, beq_iff_eq]

theorem isNameChar_iff : Text.isNameChar c = true ↔ IsNameChar c := by
  have halphanum : c.isAlphanum = true ↔ IsLetter c ∨ IsDigit c := by
    change (c.isAlpha || c.isDigit) = true ↔ _
    rw [Bool.or_eq_true, isAlpha_iff, isDigit_iff]
  simp only [Text.isNameChar, Bool.or_eq_true, halphanum, beq_iff_eq, IsNameChar, or_assoc]

theorem isWord_iff : isWord piece = true ↔ IsWord piece := by
  constructor
  · intro h
    unfold isWord at h
    split at h
    · exact .percent
    · rw [Bool.and_eq_true, List.all_eq_true] at h
      obtain ⟨hfirst, hothers⟩ := h
      exact .name (isNameStart_iff.mp hfirst) fun d hd => isNameChar_iff.mp (hothers d hd)
    · cases h
  · intro h
    cases h with
    | percent => rfl
    | name first others =>
      unfold isWord
      split
      · rfl
      · next c rest hc =>
        cases hc
        rw [Bool.and_eq_true, List.all_eq_true]
        exact ⟨isNameStart_iff.mpr first, fun d hd => isNameChar_iff.mpr (others d hd)⟩
      · next hc => cases hc

theorem isToken_iff : isToken piece = true ↔ IsWord piece ∨ IsBrokenWord piece := by
  rw [isToken, Bool.or_eq_true, Bool.and_eq_true, beq_iff_eq, isWord_iff]
  refine or_congr Iff.rfl ?_
  constructor
  · rintro ⟨hlast, hword⟩
    obtain ⟨word, rfl⟩ := List.getLast?_eq_some_iff.mp hlast
    rw [List.dropLast_concat] at hword
    exact ⟨word, isWord_iff.mp hword, rfl⟩
  · rintro ⟨word, hword, rfl⟩
    rw [List.getLast?_concat, List.dropLast_concat]
    exact ⟨rfl, isWord_iff.mpr hword⟩

theorem isWordChar_of_mem (h : IsWord piece) (hc : c ∈ piece) : IsWordChar c := by
  cases h with
  | percent => exact Or.inr (List.mem_singleton.mp hc)
  | name first others =>
    rcases List.mem_cons.mp hc with rfl | hc
    · rcases first with hletter | hlow
      · exact Or.inl (Or.inl hletter)
      · exact Or.inl (Or.inr (Or.inr (Or.inl hlow)))
    · exact Or.inl (others c hc)

theorem not_isWordChar_break : ¬ IsWordChar '\n' := by
  unfold IsWordChar IsNameChar IsLetter IsDigit
  decide

/-! ## Cuts -/

/-- The pieces of a text between its stars; they may be empty. -/
structure IsSequence (text : List Char) (pieces : List (List Char)) : Prop where
  nonempty : pieces ≠ []
  whole : ∀ piece ∈ pieces, '*' ∉ piece
  joined : text = List.intercalate ['*'] pieces

/-- The pieces of a text before its first slash and behind it, if it has one. -/
inductive IsCut (text : List Char) : List (List Char) → List (List Char) → Prop
  | whole {above : List (List Char)} (hslash : '/' ∉ text) (habove : IsSequence text above) :
    IsCut text above []
  | parted {front back : List Char} {above below : List (List Char)}
    (htext : text = front ++ '/' :: back) (hslash : '/' ∉ front) (habove : IsSequence front above)
    (hbelow : IsSequence back below) : IsCut text above below

variable {text : List Char} {front back pieces : List (List Char)}

theorem IsSequence.tokens_eq (h : IsSequence text pieces) :
    tokens text = pieces.filter (!·.isEmpty) := by
  obtain ⟨hne, hwhole, rfl⟩ := h
  rw [tokens, pieces_eq_splitOn, List.splitOn_intercalate '*' hwhole hne]

theorem not_mem_of_mem_pieces {separator : Char} (h : piece ∈ Unit.pieces separator text) :
    separator ∉ piece := by
  induction text generalizing piece with
  | nil =>
    rw [List.mem_singleton.mp h]
    exact List.not_mem_nil
  | cons d rest ih =>
    obtain ⟨first, others, hs⟩ := exists_pieces_cons separator rest
    rw [Unit.pieces, hs] at h
    rw [hs] at ih
    dsimp only at h
    split at h
    · rcases List.mem_cons.mp h with rfl | h
      · exact List.not_mem_nil
      · exact ih h
    · next hd =>
      rcases List.mem_cons.mp h with rfl | h
      · rw [List.mem_cons, not_or]
        exact ⟨fun he => hd (beq_iff_eq.mpr he.symm), ih List.mem_cons_self⟩
      · exact ih (List.mem_cons_of_mem first h)

theorem isSequence_pieces (text : List Char) : IsSequence text (Unit.pieces '*' text) where
  nonempty := by
    rw [pieces_eq_splitOn]
    exact List.splitOn_ne_nil '*' text
  whole _ h := not_mem_of_mem_pieces h
  joined := by rw [pieces_eq_splitOn, List.intercalate_splitOn]

theorem exists_isCut (text : List Char) : ∃ above below, IsCut text above below := by
  by_cases h : '/' ∈ text
  · obtain ⟨front, back, htext, hslash⟩ := List.eq_append_cons_of_mem h
    exact ⟨_, _, .parted htext hslash (isSequence_pieces front) (isSequence_pieces back)⟩
  · exact ⟨_, _, .whole h (isSequence_pieces text)⟩

theorem IsCut.tokens_halves (h : IsCut text front back) :
    tokens (halves text).1 = front.filter (!·.isEmpty) ∧
      tokens (halves text).2 = back.filter (!·.isEmpty) := by
  cases h with
  | whole hslash habove =>
    rw [halves_of_not_mem hslash]
    exact ⟨habove.tokens_eq, rfl⟩
  | parted htext hslash habove hbelow =>
    rw [htext, halves_append hslash]
    exact ⟨habove.tokens_eq, hbelow.tokens_eq⟩

/-! ## Reading -/

theorem map_ofList_eq_iff {units : List String} :
    pieces.map String.ofList = units ↔ units.map String.toList = pieces := by
  constructor
  · rintro rfl
    simp
  · rintro rfl
    simp

theorem all_filter_iff {test : List Char → Bool} {pieces : List (List Char)} :
    (pieces.filter (!·.isEmpty)).all test = true ↔
      ∀ piece ∈ pieces, piece ≠ [] → test piece = true := by
  simp only [List.all_eq_true, List.mem_filter, Bool.not_eq_true', List.isEmpty_eq_false_iff,
    and_imp]

/-- A text is read if every piece that is not empty is a word, or one with a line break behind it;
its units are these pieces. -/
theorem IsCut.read?_eq_some_iff {text : String} (h : IsCut text.toList front back)
    {above below : List String} :
    read? text = some (above, below) ↔
      (∀ piece ∈ front ++ back, piece ≠ [] → IsWord piece ∨ IsBrokenWord piece) ∧
        above.map String.toList = front.filter (!·.isEmpty) ∧
        below.map String.toList = back.filter (!·.isEmpty) := by
  obtain ⟨hfront, hback⟩ := h.tokens_halves
  have hall : (front.filter (!·.isEmpty) ++ back.filter (!·.isEmpty)).all isToken = true ↔
      ∀ piece ∈ front ++ back, piece ≠ [] → IsWord piece ∨ IsBrokenWord piece := by
    rw [← List.filter_append, all_filter_iff]
    simp only [isToken_iff]
  rw [← hall, ← map_ofList_eq_iff, ← map_ofList_eq_iff, read?]
  dsimp only
  rw [hfront, hback]
  split
  · next hyes => simp [hyes]
  · next hno => simp [hno]

/-- The text is read just if it is cut into words and empty pieces. The units are its words in their
order, so only the characters of words get into a unit, and only they, and the signs between units,
get into the text of a number with these units. -/
structure IsReadByWords (text : String) : Prop where
  accepted : (∃ units, read? text = some units) ↔
    ∃ front back, IsCut text.toList front back ∧
      ∀ piece ∈ front ++ back, piece ≠ [] → IsWord piece
  inOrder : ∀ above below, read? text = some (above, below) →
    ∃ front back, IsCut text.toList front back ∧
      above.map String.toList = front.filter (!·.isEmpty) ∧
      below.map String.toList = back.filter (!·.isEmpty)
  clean : ∀ above below, read? text = some (above, below) →
    ∀ unit ∈ above ++ below, ∀ c ∈ unit.toList, IsWordChar c
  printed : ∀ magnitude n, Number.withUnit magnitude text = .ok n →
    ∃ units, n.css = magnitude.styleText ++ units ∧
      ∀ c ∈ units.toList, IsWordChar c ∨ c ∈ "*/()^-1".toList

/-- The text is read, and one of its words has a line break behind it. -/
def HasBrokenWord (text : String) : Prop :=
  ∃ front back, IsCut text.toList front back ∧
    (∀ piece ∈ front ++ back, piece ≠ [] → IsWord piece ∨ IsBrokenWord piece) ∧
      ∃ piece ∈ front ++ back, IsBrokenWord piece

variable {text : String}

theorem mem_filter_append_iff :
    piece ∈ front.filter (!·.isEmpty) ++ back.filter (!·.isEmpty) ↔
      piece ∈ front ++ back ∧ piece ≠ [] := by
  rw [← List.filter_append, List.mem_filter, Bool.not_eq_true', List.isEmpty_eq_false_iff]

theorem HasBrokenWord.exists_unit (h : HasBrokenWord text) :
    ∃ above below, read? text = some (above, below) ∧
      ∃ unit ∈ above ++ below, '\n' ∈ unit.toList := by
  obtain ⟨front, back, hcut, hall, piece, hm, word, -, rfl⟩ := h
  have hread := hcut.read?_eq_some_iff.mpr
    ⟨hall, map_ofList_eq_iff.mp rfl, map_ofList_eq_iff.mp rfl⟩
  have hne : word ++ ['\n'] ≠ [] := List.append_ne_nil_of_right_ne_nil word (List.cons_ne_nil _ _)
  refine ⟨_, _, hread, String.ofList (word ++ ['\n']), ?_, ?_⟩
  · rw [← List.map_append]
    exact List.mem_map_of_mem (mem_filter_append_iff.mpr ⟨hm, hne⟩)
  · rw [String.toList_ofList]
    exact List.mem_append_right word List.mem_cons_self

/-- Without such a line break all pieces of a text that is read are words. -/
theorem isWord_of_read? (h : ¬ HasBrokenWord text) (hcut : IsCut text.toList front back)
    {above below : List String} (hread : read? text = some (above, below)) :
    ∀ piece ∈ front ++ back, piece ≠ [] → IsWord piece := by
  obtain ⟨hall, -, -⟩ := hcut.read?_eq_some_iff.mp hread
  intro piece hm hne
  rcases hall piece hm hne with hword | hbroken
  · exact hword
  · exact absurd ⟨front, back, hcut, hall, piece, hm, hbroken⟩ h

theorem isWordChar_of_read? (h : ¬ HasBrokenWord text) {above below : List String}
    (hread : read? text = some (above, below)) :
    ∀ unit ∈ above ++ below, ∀ c ∈ unit.toList, IsWordChar c := by
  obtain ⟨front, back, hcut⟩ := exists_isCut text.toList
  obtain ⟨-, habove, hbelow⟩ := hcut.read?_eq_some_iff.mp hread
  intro unit hm c hc
  have hpiece : unit.toList ∈ front.filter (!·.isEmpty) ++ back.filter (!·.isEmpty) := by
    rw [← habove, ← hbelow, ← List.map_append]
    exact List.mem_map_of_mem hm
  obtain ⟨hpiece, hne⟩ := mem_filter_append_iff.mp hpiece
  exact isWordChar_of_mem (isWord_of_read? h hcut hread _ hpiece hne) hc

theorem isReadByWords_of_not (h : ¬ HasBrokenWord text) : IsReadByWords text where
  accepted := by
    constructor
    · rintro ⟨⟨above, below⟩, hread⟩
      obtain ⟨front, back, hcut⟩ := exists_isCut text.toList
      exact ⟨front, back, hcut, isWord_of_read? h hcut hread⟩
    · rintro ⟨front, back, hcut, hwords⟩
      have hpieces : ∀ piece ∈ front ++ back, piece ≠ [] → IsWord piece ∨ IsBrokenWord piece :=
        fun piece hm hne => Or.inl (hwords piece hm hne)
      exact ⟨(_, _), hcut.read?_eq_some_iff.mpr
        ⟨hpieces, map_ofList_eq_iff.mp rfl, map_ofList_eq_iff.mp rfl⟩⟩
  inOrder above below hread := by
    obtain ⟨front, back, hcut⟩ := exists_isCut text.toList
    exact ⟨front, back, hcut, (hcut.read?_eq_some_iff.mp hread).2⟩
  clean _ _ hread := isWordChar_of_read? h hread
  printed magnitude n hn := by
    rw [Number.withUnit] at hn
    split at hn
    · next above below hread =>
      cases hn
      refine ⟨Unit.text above below, rfl, ?_⟩
      intro c hc
      rcases mem_text hc with ⟨unit, hm, hc⟩ | hsign
      · exact Or.inl (isWordChar_of_read? h hread unit hm c hc)
      · exact Or.inr hsign
    · cases hn

/-- A text is read by its words unless a word that is read has a line break behind it. -/
theorem isReadByWords_iff (text : String) : IsReadByWords text ↔ ¬ HasBrokenWord text := by
  constructor
  · intro h hbroken
    obtain ⟨above, below, hread, unit, hm, hbreak⟩ := hbroken.exists_unit
    exact not_isWordChar_break (h.clean above below hread unit hm '\n' hbreak)
  · exact isReadByWords_of_not

/-- A word that ends with its line is read with the line break. -/
theorem not_isReadByWords : ¬ ∀ text, IsReadByWords text := by
  intro h
  have hread : read? "px\n" = some (["px\n"], []) := by decide
  exact not_isWordChar_break
    ((h "px\n").clean _ _ hread "px\n" List.mem_cons_self '\n' (by decide))

end Unit

end SassData
