import SassData.Number
import SassData.Source.Expr
import SassData.Text.Blank
import SassData.Text.Digit
import SassData.Text.Word

/-!
# Tokens

The kinds of token and, for each, how many characters of a text it takes. A kind is tried at the
front of the text; `none` means that no token of the kind stands there.
-/

namespace SassData.Source

set_option autoImplicit false

open Number (Magnitude Binary64)

inductive Symbol
  | ellipsis | eq | ne | le | ge | lt | gt | plus | minus | star | slash | percent
  | openParen | closeParen | openBracket | closeBracket | openBrace | closeBrace
  | comma | colon | semicolon
  deriving DecidableEq

/-- A variable's name comes without its dollar sign, a call's without its parenthesis. Whether a
word is a keyword depends on where it stands. -/
inductive Token
  | number (value : Number)
  | hash (text : String)
  | string (text : String)
  | word (text : String)
  | call (name : String)
  | variable (name : String)
  | selector (text : String)
  | flag (flag : Flag)
  | debug
  | error
  | symbol (symbol : Symbol)
  | unknown

/-! ## Numbers -/

def spanDigits (text : List Char) : List Char × List Char := text.span Text.isDigit

def fraction? : List Char → Option (List Char × List Char)
  | '.' :: more =>
    let (digits, rest) := spanDigits more
    if digits.isEmpty then none else some (digits, rest)
  | _ => none

/-- A numeral without exponent: its digits with the point left out, the count of those behind the
point, if there is one, and the rest of the text. -/
def mantissa? (text : List Char) : Option (List Char × Option Nat × List Char) :=
  let (whole, rest) := spanDigits text
  match fraction? rest with
  | some (fraction, rest) => some (whole ++ fraction, some fraction.length, rest)
  | none => if whole.isEmpty then none else some (whole, none, rest)

def spanUnit (text : List Char) : List Char × List Char :=
  match text with
  | '%' :: rest => (['%'], rest)
  | _ => text.span Text.isNameStart

/-- A numeral with a point or an exponent is a floating-point number, any other an integer. -/
def number? (text : List Char) : Option (Number × List Char) := do
  let (digits, places, rest) ← mantissa? text
  let n := Text.readDigits 0 digits
  let (magnitude, rest) : Magnitude × List Char :=
    match Text.exponent? Text.isDigit rest, places with
    | some (e, rest), _ => (.float (Binary64.ofDecimal false n (e - (places.getD 0 : Nat))), rest)
    | none, some places => (.float (Binary64.ofDecimal false n (-(places : Int))), rest)
    | none, none => (.int n, rest)
  let (unit, rest) := spanUnit rest
  return (⟨magnitude, if unit.isEmpty then [] else [String.ofList unit], []⟩, rest)

/-! ## Texts -/

/-- The rest of a text after a string literal whose opening mark is read. A backslash takes the
character after it along; no line break is inside. -/
def afterString? (mark : Char) : List Char → Option (List Char)
  | [] => none
  | [c] => if c == mark then some [] else none
  | c :: d :: rest =>
    if c == mark then some (d :: rest)
    else if c == '\n' then none
    else if c == '\\' then if d == '\n' then none else afterString? mark rest
    else afterString? mark (d :: rest)

def spanWord? (text : List Char) : Option (List Char × List Char) :=
  let hyphens := text.takeWhile (· == '-')
  match text.drop hyphens.length with
  | c :: _ =>
    if hyphens.length ≤ 2 && Text.isNameStart c then
      some (text.span Text.isNameChar)
    else none
  | [] => none

def spanName? (text : List Char) : Option (List Char × List Char) :=
  match text with
  | c :: _ => if Text.isNameStart c then some (text.span Text.isNameChar) else none
  | [] => none

def startsSelector (c : Char) : Bool :=
  !Text.isBlank c && !(c ∈ ['$', '\x7b', '\x7d', '@', ';', '/'])

def inSelector (c : Char) : Bool := !(c ∈ ['\x7b', '\x7d', ';'])

def after? (beginning text : List Char) : Option (List Char) :=
  if beginning.isPrefixOf text then some (text.drop beginning.length) else none

/-- A flag by its spelling; it ends where the next character would not continue a word. -/
def flagAt? (spelling : String) (flag : Flag) (text : List Char) : Option (Flag × List Char) :=
  match after? spelling.toList text with
  | some rest => if rest.head?.any Text.isWordChar then none else some (flag, rest)
  | none => none

def flag? (text : List Char) : Option (Flag × List Char) :=
  (flagAt? "!default" .default text).or (flagAt? "!global" .global text)

/-! ## Blanks and comments -/

def isSpace (c : Char) : Bool := c ∈ [' ', '\t', '\x0c', '\r', '\n']

def afterBlock? : List Char → Option (List Char)
  | '*' :: '/' :: rest => some rest
  | _ :: rest => afterBlock? rest
  | [] => none

def afterBlank? (text : List Char) : Option (List Char) :=
  match text with
  | '/' :: '*' :: rest => afterBlock? rest
  | '/' :: '/' :: rest => some (rest.dropWhile (· != '\n'))
  | c :: rest => if isSpace c then some rest else none
  | [] => none

/-! ## Symbols -/

/-- How each symbol is written. One that begins like another stands before it. -/
def spellings : List (String × Symbol) :=
  [("...", .ellipsis), ("==", .eq), ("!=", .ne), ("<=", .le), (">=", .ge), ("<", .lt), (">", .gt),
    ("+", .plus), ("-", .minus), ("*", .star), ("/", .slash), ("%", .percent),
    ("(", .openParen), (")", .closeParen), ("[", .openBracket), ("]", .closeBracket),
    ("\x7b", .openBrace), ("\x7d", .closeBrace), (",", .comma), (":", .colon), (";", .semicolon)]

def symbol? (text : List Char) : Option (Symbol × List Char) :=
  spellings.findSome? fun (spelling, symbol) =>
    (after? spelling.toList text).map fun rest => (symbol, rest)

/-! ## Tokens by place -/

/-- The token at the front of a text where an expression stands. A word that runs into a parenthesis
is a call. -/
def exprToken? (text : List Char) : Option (Token × List Char) :=
  match text with
  | [] => none
  | c :: more =>
    match number? text with
    | some (value, rest) => some (.number value, rest)
    | none =>
      if Text.isMark c then
        (afterString? c more).map fun rest =>
          (.string (String.ofList (text.take (text.length - rest.length))), rest)
      else match spanWord? text with
      | some (word, '(' :: rest) => some (.call (String.ofList word), rest)
      | some (word, rest) => some (.word (String.ofList word), rest)
      | none =>
        if c == '$' then
          (spanName? more).map fun (name, rest) => (.variable (String.ofList name), rest)
        else if c == '#' then
          let (digits, rest) := more.span Char.isAlphanum
          if digits.isEmpty then none else some (.hash (String.ofList (c :: digits)), rest)
        else match flag? text with
        | some (flag, rest) => some (.flag flag, rest)
        | none => (symbol? text).map fun (symbol, rest) => (.symbol symbol, rest)

/-- The token at the front of a text where a statement begins. -/
def statementToken? (text : List Char) : Option (Token × List Char) :=
  match text with
  | [] => none
  | c :: more =>
    if c == '$' then
      (spanName? more).map fun (name, rest) => (.variable (String.ofList name), rest)
    else if startsSelector c then
      let (selector, rest) := more.span inSelector
      some (.selector (String.ofList (c :: selector)), rest)
    else match after? "@debug".toList text with
    | some rest => some (.debug, rest)
    | none => (after? "@error".toList text).map fun rest => (.error, rest)

/-- The token at the front of a text where a declaration or the end of a block stands. -/
def blockToken? (text : List Char) : Option (Token × List Char) :=
  match spanWord? text with
  | some (word, rest) => some (.word (String.ofList word), rest)
  | none =>
    match text with
    | '\x7d' :: rest => some (.symbol .closeBrace, rest)
    | _ => none

end SassData.Source
