import SassData.Source.Token
import SassData.Text.Half

/-!
# Lexemes

A text cut into tokens with the place where each begins. What counts as a token depends on where it
stands: at the beginning of a statement, in a block, or in an expression; the tokens read so far
decide which, and an expression remembers whether it stands in a block. Blanks and comments
separate tokens everywhere. A character that begins no token ends the list with an unknown token.
-/

namespace SassData.Source

set_option autoImplicit false

/-- Lines and columns count from one, and only a line break begins a line. A guard takes no
column. -/
structure Position where
  line : Nat
  column : Nat
  deriving DecidableEq

namespace Position

def start : Position := ⟨1, 1⟩

def step (p : Position) (c : Char) : Position :=
  if c == '\n' then ⟨p.line + 1, 1⟩
  else if c == Text.guardChar then p
  else ⟨p.line, p.column + 1⟩

end Position

structure Lexeme where
  token : Token
  position : Position

inductive Mode
  | statement
  | block
  | expression (inBlock : Bool)
  deriving DecidableEq

namespace Mode

def token? : Mode → List Char → Option (Token × List Char)
  | statement => statementToken?
  | block => blockToken?
  | expression _ => exprToken?

def after : Mode → Token → Mode
  | statement, _ => expression false
  | block, .symbol .closeBrace => statement
  | block, _ => expression true
  | expression inBlock, .symbol .semicolon => if inBlock then block else statement
  | expression _, .symbol .openBrace => block
  | expression _, .symbol .closeBrace => statement
  | expression inBlock, _ => expression inBlock

end Mode

/-- The lexemes of a text. The number says how many characters of the last token, blank or comment
are still to be passed over. -/
def scanFrom : Mode → Nat → Position → List Char → List Lexeme
  | _, _, _, [] => []
  | mode, n + 1, p, c :: more => scanFrom mode n (p.step c) more
  | mode, 0, p, c :: more =>
    match afterBlank? (c :: more) with
    | some rest => scanFrom mode (more.length - rest.length) (p.step c) more
    | none =>
      match mode.token? (c :: more) with
      | some (token, rest) =>
        ⟨token, p⟩ :: scanFrom (mode.after token) (more.length - rest.length) (p.step c) more
      | none => [⟨.unknown, p⟩]

def scan (mode : Mode) (source : String) : List Lexeme :=
  scanFrom mode 0 .start source.toList

end SassData.Source
