/-!
# Quoted texts

A text counts as quoted when it begins and ends with the same quotation mark; nothing inside
it is looked at. Wrapping a text puts a backslash before each occurrence of the mark used, and
taking the marks off again leaves those backslashes alone. Whether the result is a string
literal of the stylesheet language is not decided here.
-/

namespace SassData.Text

set_option autoImplicit false

def isMark (c : Char) : Bool := c == '\'' || c == '"'

theorem eq_of_isMark {c : Char} (h : isMark c = true) : c = '\'' ∨ c = '"' := by
  simpa [isMark] using h

theorem ne_of_isMark {c : Char} (h : isMark c = true) : c ≠ '\\' ∧ c ≠ '\n' := by
  rcases eq_of_isMark h with rfl | rfl <;> decide

/-- The mark around a text and what stands between, if the text is quoted. -/
def unwrap? : List Char → Option (Char × List Char)
  | [] => none
  | c :: rest => if isMark c && rest.getLast? == some c then some (c, rest.dropLast) else none

/-- Puts a backslash before every occurrence of the delimiter, found from left to right and
without overlap. The number says how many characters of an occurrence are still to be copied. -/
def escapeFrom (delimiter : List Char) : Nat → List Char → List Char
  | _, [] => []
  | n + 1, c :: rest => c :: escapeFrom delimiter n rest
  | 0, c :: rest =>
    if delimiter.isPrefixOf (c :: rest) then
      '\\' :: c :: escapeFrom delimiter (delimiter.length - 1) rest
    else c :: escapeFrom delimiter 0 rest

def escape (delimiter text : List Char) : List Char := escapeFrom delimiter 0 text

/-- The delimiter that stays around a text when one is asked for: its own mark, if it has one. -/
def delimiterFor (asked text : List Char) : List Char :=
  match unwrap? text with
  | some (mark, _) => [mark]
  | none => asked

def payload (text : List Char) : List Char :=
  match unwrap? text with
  | some (_, inner) => inner
  | none => text

/-- The text in the delimiter asked for, or in its own marks; an empty delimiter leaves it bare. -/
def wrap (asked text : List Char) : List Char :=
  if asked.isEmpty then text
  else
    let delimiter := delimiterFor asked text
    delimiter ++ escape delimiter (payload text) ++ delimiter

def isQuoted (text : String) : Bool := (unwrap? text.toList).isSome

def mark? (text : String) : Option Char := (unwrap? text.toList).map Prod.fst

def unquote (text : String) : String := String.ofList (payload text.toList)

def quote (text delimiter : String) : String := String.ofList (wrap delimiter.toList text.toList)

theorem unwrap?_enclosed {mark : Char} (h : isMark mark) (inner : List Char) :
    unwrap? (mark :: (inner ++ [mark])) = some (mark, inner) := by
  simp [unwrap?, h]

theorem payload_enclosed {mark : Char} (h : isMark mark) (inner : List Char) :
    payload (mark :: (inner ++ [mark])) = inner := by
  simp [payload, unwrap?_enclosed h]

theorem enclosed_of_unwrap? {text inner : List Char} {mark : Char}
    (h : unwrap? text = some (mark, inner)) : isMark mark ∧ text = mark :: (inner ++ [mark]) := by
  cases text with
  | nil => simp [unwrap?] at h
  | cons c rest =>
    simp only [unwrap?, Option.ite_none_right_eq_some, Option.some.injEq, Prod.mk.injEq,
      Bool.and_eq_true, beq_iff_eq] at h
    obtain ⟨⟨hm, hl⟩, rfl, rfl⟩ := h
    obtain ⟨front, hf⟩ := List.getLast?_eq_some_iff.mp hl
    exact ⟨hm, by simp [hf]⟩

theorem escape_singleton_nil (mark : Char) : escape [mark] [] = [] := rfl

theorem escape_singleton_cons (mark c : Char) (rest : List Char) :
    escape [mark] (c :: rest) =
      if mark = c then '\\' :: c :: escape [mark] rest else c :: escape [mark] rest := by
  simp [escape, escapeFrom, List.isPrefixOf]

theorem escape_of_not_mem {mark : Char} {text : List Char} (h : mark ∉ text) :
    escape [mark] text = text := by
  induction text with
  | nil => rfl
  | cons c rest ih =>
    simp only [List.mem_cons, not_or] at h
    simp [escape_singleton_cons, h.1, ih h.2]

theorem wrap_nil (text : List Char) : wrap [] text = text := rfl

end SassData.Text
