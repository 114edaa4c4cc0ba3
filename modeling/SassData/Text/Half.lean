import SassData.Text.Digit

/-!
# Halves of characters

A character beyond sixteen bits is written in two halves where only sixteen bits are to be had, and
data may hold one half without the other. Such a half is no character; inside a text a private
character of the last plane stands for it, as far behind the beginning of the plane as the number of
the half says. Where one of these private characters stands for itself, the last character of all
guards it, and that one, when it is meant itself, is a guard with the character before it. So every
sequence of characters and halves has one spelling, which `pieces` reads back: whatever writes
texts out for others goes through the pieces, and only a guard takes no place of its own.
-/

namespace SassData.Text

set_option autoImplicit false

def isFirstHalf (n : Nat) : Bool := 0xd800 ≤ n && n < 0xdc00

def isSecondHalf (n : Nat) : Bool := 0xdc00 ≤ n && n < 0xe000

def isHalf (n : Nat) : Bool := isFirstHalf n || isSecondHalf n

def joinHalves (first second : Nat) : Char :=
  Char.ofNat (0x10000 + (first - 0xd800) * 0x400 + (second - 0xdc00))

def halfText (n : Nat) : List Char := '\\' :: 'u' :: hex 4 n

/-! ## Spelling -/

def halfBase : Nat := 0x100000

def ofHalf (n : Nat) : Char := Char.ofNat (halfBase + n)

/-- The half that a character stands for, unless it is guarded. -/
def half? (c : Char) : Option Nat :=
  let n := c.toNat - halfBase
  if isHalf n then some n else none

def guardChar : Char := Char.ofNat 0x10ffff

/-- What stands behind a guard for the guard itself. -/
def beforeGuard : Char := Char.ofNat 0x10fffe

def ofChar (c : Char) : List Char :=
  if c == guardChar then [guardChar, beforeGuard]
  else if (half? c).isSome then [guardChar, c]
  else [c]

inductive Piece
  | char (c : Char)
  | half (n : Nat)
  deriving DecidableEq

namespace Piece

def text : Piece → List Char
  | char c => ofChar c
  | half n => [ofHalf n]

/-- The piece that a character spells by itself. -/
def bare (c : Char) : Piece := (half? c).elim (char c) half

/-- The piece that a character spells behind a guard. -/
def guarded (c : Char) : Piece := char (if c == beforeGuard then guardChar else c)

end Piece

def pieces : List Char → List Piece
  | [] => []
  | [c] => [.bare c]
  | c :: d :: rest =>
    if c == guardChar then .guarded d :: pieces rest else .bare c :: pieces (d :: rest)

/-! ## Reading back -/

theorem half?_ofHalf {n : Nat} (h : isHalf n = true) : half? (ofHalf n) = some n := by
  have hn : n < 0xe000 := by
    simp only [isHalf, isFirstHalf, isSecondHalf, Bool.or_eq_true, Bool.and_eq_true,
      decide_eq_true_eq] at h
    omega
  have hv : (halfBase + n).isValidChar := by
    right
    simp only [halfBase]
    omega
  have ht : (ofHalf n).toNat = halfBase + n := by
    rw [ofHalf, Char.ofNat, dif_pos hv]
    rfl
  simp [half?, ht, h]

theorem half?_guardChar : half? guardChar = none := by decide

theorem pieces_cons {c : Char} (h : c ≠ guardChar) (rest : List Char) :
    pieces (c :: rest) = .bare c :: pieces rest := by
  cases rest with
  | nil => rfl
  | cons d rest => simp [pieces, h]

theorem pieces_guardChar (c : Char) (rest : List Char) :
    pieces (guardChar :: c :: rest) = .guarded c :: pieces rest := by
  simp [pieces]

theorem Piece.bare_of_none {c : Char} (h : half? c = none) : Piece.bare c = .char c := by
  rw [Piece.bare, h, Option.elim]

theorem Piece.bare_of_some {c : Char} {n : Nat} (h : half? c = some n) :
    Piece.bare c = .half n := by
  rw [Piece.bare, h, Option.elim]

theorem Piece.guarded_of_ne {c : Char} (h : c ≠ beforeGuard) : Piece.guarded c = .char c := by
  simp only [Piece.guarded, beq_eq_false_iff_ne.mpr h, Bool.false_eq_true, if_false]

theorem pieces_ofChar (c : Char) (rest : List Char) :
    pieces (ofChar c ++ rest) = .char c :: pieces rest := by
  unfold ofChar
  split
  · next h =>
    rw [eq_of_beq h]
    exact pieces_guardChar beforeGuard rest
  · next h =>
    have hc : c ≠ guardChar := fun he => h (beq_iff_eq.mpr he)
    split
    · next hh =>
      have hb : c ≠ beforeGuard := by
        rintro rfl
        exact absurd hh (by decide)
      exact (pieces_guardChar c rest).trans (congrArg (· :: pieces rest) (Piece.guarded_of_ne hb))
    · next hh =>
      have hn : half? c = none := by
        cases hs : half? c with
        | none => rfl
        | some n => exact absurd (by rw [hs]; rfl) hh
      exact (pieces_cons hc rest).trans (congrArg (· :: pieces rest) (Piece.bare_of_none hn))

theorem pieces_ofHalf {n : Nat} (h : isHalf n = true) (rest : List Char) :
    pieces (ofHalf n :: rest) = .half n :: pieces rest := by
  have hs := half?_ofHalf h
  have hc : ofHalf n ≠ guardChar := fun he => by
    rw [he, half?_guardChar] at hs
    exact absurd hs (Option.some_ne_none n).symm
  rw [pieces_cons hc, Piece.bare_of_some hs]

end SassData.Text
