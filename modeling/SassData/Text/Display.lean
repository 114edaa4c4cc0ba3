import SassData.Text.Half
import SassData.Text.Printable

/-!
# Texts as messages show them

A text in single marks, or in double ones when it holds a single mark and no double one.
Backslashes and the mark in use are escaped, and so is whatever would not print, by its number in
hexadecimal at the shortest of three widths.
-/

namespace SassData.Text

set_option autoImplicit false

def displayMark (text : List Char) : Char :=
  if text.contains '\'' && !text.contains '"' then '"' else '\''

def displayChar (mark c : Char) : List Char :=
  if c == mark || c == '\\' then ['\\', c]
  else if c == '\n' then ['\\', 'n']
  else if c == '\r' then ['\\', 'r']
  else if c == '\t' then ['\\', 't']
  else if isPrintable c then [c]
  else if c.toNat < 0x100 then '\\' :: 'x' :: hex 2 c.toNat
  else if c.toNat < 0x10000 then '\\' :: 'u' :: hex 4 c.toNat
  else '\\' :: 'U' :: hex 8 c.toNat

def displayPiece (mark : Char) : Piece → List Char
  | .char c => displayChar mark c
  | .half n => halfText n

def display (text : String) : String :=
  let mark := displayMark text.toList
  String.ofList (mark :: ((pieces text.toList).flatMap (displayPiece mark) ++ [mark]))

end SassData.Text
