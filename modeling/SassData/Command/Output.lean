import SassData.Failure

/-!
# What commands write

Before a text is written, the sequences that give orders to a terminal are taken out: an escape
character and a bracket, parameters, marks, and the character that ends the sequence, each from its
own range. A half of a character cannot be written at all; in a message it stands by its number.
-/

namespace SassData.Command

set_option autoImplicit false

/-! ## Terminal sequences -/

def between (first last c : Char) : Bool := first ≤ c && c ≤ last

/-- How many characters a sequence has after its escape character: a bracket, the parameters, the
marks between them and the end, and the one character that ends it. -/
def sequenceLength? : List Char → Option Nat
  | '[' :: rest =>
    let (parameters, rest) := rest.span (between '0' '?')
    let (marks, rest) := rest.span (between ' ' '/')
    match rest with
    | c :: _ => if between '@' '~' c then some (parameters.length + marks.length + 2) else none
    | [] => none
  | _ => none

/-- A text without terminal sequences; the number says how much is still to be passed over. -/
def withoutSequences : Nat → List Char → List Char
  | _, [] => []
  | n + 1, _ :: rest => withoutSequences n rest
  | 0, c :: rest =>
    match if c == '\x1b' then sequenceLength? rest else none with
    | some n => withoutSequences n rest
    | none => c :: withoutSequences 0 rest

theorem withoutSequences_of_not_mem {text : List Char} (h : '\x1b' ∉ text) :
    withoutSequences 0 text = text := by
  induction text with
  | nil => rfl
  | cons c rest ih =>
    simp only [List.mem_cons, not_or] at h
    simp [withoutSequences, Ne.symm h.1, ih h.2]

def plain (text : String) : String := String.ofList (withoutSequences 0 text.toList)

/-! ## Halves of characters -/

def leadingHalves : List Text.Piece → List Nat
  | .half n :: rest => n :: leadingHalves rest
  | _ => []

/-- Where the first halves of a text are, places counted from a number on. -/
def firstHalves? (place : Nat) : List Text.Piece → Option (Nat × List Nat)
  | [] => none
  | .half n :: rest => some (place, n :: leadingHalves rest)
  | .char _ :: rest => firstHalves? (place + 1) rest

def notEncodable (what : String) : Failure :=
  .host "UnicodeEncodeError" ("'utf-8' codec can't encode " ++ what ++ ": surrogates not allowed")

def unwritable? (text : String) : Option Failure :=
  match firstHalves? 0 (Text.pieces text.toList) with
  | none => none
  | some (place, [n]) =>
    some (notEncodable ("character '" ++ String.ofList (Text.halfText n) ++ "' in position "
      ++ toString place))
  | some (place, halves) =>
    some (notEncodable ("characters in position " ++ toString place ++ "-"
      ++ toString (place + halves.length - 1)))

def messagePiece : Text.Piece → List Char
  | .char c => Text.ofChar c
  | .half n => Text.halfText n

def messageText (text : String) : String :=
  String.ofList ((Text.pieces (plain text).toList).flatMap messagePiece)

end SassData.Command
