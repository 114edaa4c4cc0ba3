import SassData.Host
import SassData.Text.Digit
import SassData.Text.Half

/-!
# JSON documents

Reading a text as JSON into host data: objects become dictionaries in which a repeated name keeps
its place and takes the later value, numbers without fraction and exponent are integers of any size,
and the names of the infinities and of what is not a number are numbers too. The reader takes what
it needs from the front of a text; the nesting of values is bounded by the length of the text.
-/

namespace SassData.Json

set_option autoImplicit false

open Number (Binary64)

def isSpace (c : Char) : Bool := c ∈ [' ', '\t', '\n', '\r']

def skipSpace (text : List Char) : List Char := text.dropWhile isSpace

def after? (beginning text : List Char) : Option (List Char) :=
  if beginning.isPrefixOf text then some (text.drop beginning.length) else none

/-! ## Strings -/

def unit16? : List Char → Option (Nat × List Char)
  | a :: b :: c :: d :: rest => do
    let a ← Text.hexDigit? a
    let b ← Text.hexDigit? b
    let c ← Text.hexDigit? c
    let d ← Text.hexDigit? d
    return (((a * 16 + b) * 16 + c) * 16 + d, rest)
  | _ => none

/-- What an escape by number stands for, two of which may stand for one character. A half without
its other half is kept as such. -/
def numbered? (text : List Char) : Option (Text.Piece × List Char) := do
  let (first, rest) ← unit16? text
  if Text.isFirstHalf first then
    match rest with
    | '\\' :: 'u' :: more =>
      match unit16? more with
      | some (second, more) =>
        if Text.isSecondHalf second then return (.char (Text.joinHalves first second), more)
        else return (.half first, rest)
      | none => return (.half first, rest)
    | _ => return (.half first, rest)
  else if Text.isSecondHalf first then return (.half first, rest)
  else return (.char (Char.ofNat first), rest)

def simpleEscape? : Char → Option Char
  | '"' => some '"'
  | '\\' => some '\\'
  | '/' => some '/'
  | 'b' => some '\x08'
  | 'f' => some '\x0c'
  | 'n' => some '\n'
  | 'r' => some '\r'
  | 't' => some '\t'
  | _ => none

/-- The characters of a string whose opening mark is read, before those given in reverse, and what
follows its closing mark. The number bounds the characters. -/
def stringFrom : Nat → List Char → List Char → Option (String × List Char)
  | 0, _, _ => none
  | n + 1, before, text =>
    match text with
    | [] => none
    | '"' :: rest => some (String.ofList before.reverse, rest)
    | '\\' :: 'u' :: rest =>
      match numbered? rest with
      | some (piece, rest) => stringFrom n (piece.text.reverse ++ before) rest
      | none => none
    | '\\' :: c :: rest =>
      match simpleEscape? c with
      | some c => stringFrom n (c :: before) rest
      | none => none
    | c :: rest => if c.toNat < 0x20 then none else stringFrom n (c :: before) rest

def string? (text : List Char) : Option (String × List Char) :=
  stringFrom (text.length + 1) [] text

/-! ## Numbers -/

/-- The digits at the front of a text; only those from `0` to `9` are digits here. -/
def spanDigits (text : List Char) : List Char × List Char := text.span Char.isDigit

def fraction? (text : List Char) : Option (List Char × List Char) :=
  match text with
  | '.' :: rest =>
    let (digits, rest) := spanDigits rest
    if digits.isEmpty then none else some (digits, rest)
  | _ => none

def number? (text : List Char) : Option (Host × List Char) :=
  let (negative, text) := match text with
    | '-' :: rest => (true, rest)
    | _ => (false, text)
  let (digits, rest) := match text with
    | '0' :: rest => (['0'], rest)
    | _ => spanDigits text
  if digits.isEmpty then none
  else
    let fraction := fraction? rest
    let rest := (fraction.map Prod.snd).getD rest
    let places := (fraction.map Prod.fst).getD []
    let exponent := Text.exponent? Char.isDigit rest
    let rest := (exponent.map Prod.snd).getD rest
    let n := Text.readDigits 0 (digits ++ places)
    if fraction.isNone && exponent.isNone then
      some (.number (.int (if negative then -(n : Int) else n)), rest)
    else
      let e := (exponent.map Prod.fst).getD 0 - (places.length : Int)
      some (.number (.float (Binary64.ofDecimal negative n e)), rest)

/-! ## Values -/

def constants : List (String × Host) :=
  [("null", .null), ("true", .bool true), ("false", .bool false),
   ("NaN", .number (.float (.nan false .written))),
   ("Infinity", .number (.float (.infinity false))),
   ("-Infinity", .number (.float (.infinity true)))]

def constant? (text : List Char) : Option (Host × List Char) :=
  constants.findSome? fun (name, h) => (after? name.toList text).map fun rest => (h, rest)

mutual

/-- The value at the front of a text, nested at most to a depth. -/
def value? : Nat → List Char → Option (Host × List Char)
  | 0, _ => none
  | n + 1, text =>
    match text with
    | '"' :: rest => (string? rest).map fun (s, rest) => (.text s, rest)
    | '[' :: rest =>
      match skipSpace rest with
      | ']' :: rest => some (.list [], rest)
      | rest => (items? n [] rest).map fun (items, rest) => (.list items, rest)
    | '\x7b' :: rest =>
      match skipSpace rest with
      | '\x7d' :: rest => some (.dict [], rest)
      | rest => (members? n [] rest).map fun (members, rest) => (Host.dictOfNamed members, rest)
    | text => (constant? text).or (number? text)

def items? : Nat → List Host → List Char → Option (List Host × List Char)
  | 0, _, _ => none
  | n + 1, before, text => do
    let (h, rest) ← value? n text
    match skipSpace rest with
    | ',' :: rest => items? n (h :: before) (skipSpace rest)
    | ']' :: rest => return ((h :: before).reverse, rest)
    | _ => none

def members? : Nat → List (String × Host) → List Char → Option (List (String × Host) × List Char)
  | 0, _, _ => none
  | n + 1, before, text => do
    let '"' :: rest := text | none
    let (name, rest) ← string? rest
    let ':' :: rest := skipSpace rest | none
    let (h, rest) ← value? n (skipSpace rest)
    match skipSpace rest with
    | ',' :: rest => members? n ((name, h) :: before) (skipSpace rest)
    | '\x7d' :: rest => return (((name, h) :: before).reverse, rest)
    | _ => none

end

def read (text : String) : Outcome Host :=
  let text := skipSpace text.toList
  match value? (2 * text.length + 1) text with
  | some (h, rest) => if (skipSpace rest).isEmpty then .ok h else .error .invalidJson
  | none => .error .invalidJson

/-! ## Writing -/

/-- How floating-point numbers without a numeral are spelled. -/
def spelling : Number.Spelling := ⟨"NaN", "Infinity"⟩

/-- A character inside a string, ASCII only: by a short escape, by itself, or by number, in two
halves if it needs more than sixteen bits. -/
def escapeChar (c : Char) : List Char :=
  let n := c.toNat
  if c == '"' || c == '\\' then ['\\', c]
  else if c == '\n' then ['\\', 'n']
  else if c == '\r' then ['\\', 'r']
  else if c == '\t' then ['\\', 't']
  else if c == '\x08' then ['\\', 'b']
  else if c == '\x0c' then ['\\', 'f']
  else if 0x20 ≤ n && n < 0x7f then [c]
  else if n < 0x10000 then '\\' :: 'u' :: Text.hex 4 n
  else
    let m := n - 0x10000
    '\\' :: 'u' :: Text.hex 4 (0xd800 + m / 0x400)
      ++ '\\' :: 'u' :: Text.hex 4 (0xdc00 + m % 0x400)

def escape : Text.Piece → List Char
  | .char c => escapeChar c
  | .half n => Text.halfText n

def quote (s : String) : String :=
  String.ofList ('"' :: ((Text.pieces s.toList).flatMap escape ++ ['"']))

def magnitudeText : Number.Magnitude → String
  | .int n => toString n
  | .float x => x.text spelling

/-- The text of a name: only texts and scalars are names. -/
def nameText : Host → Option String
  | .text s => some s
  | .null => some "null"
  | .bool b => some (if b then "true" else "false")
  | .number m => some (magnitudeText m)
  | _ => none

mutual

def write? : Host → Option String
  | .null => some "null"
  | .bool b => some (if b then "true" else "false")
  | .number m => some (magnitudeText m)
  | .text s => some (quote s)
  | .list items => do return "[" ++ ", ".intercalate (← writeItems? items) ++ "]"
  | .tuple items => do return "[" ++ ", ".intercalate (← writeItems? items) ++ "]"
  | .dict entries => do return "\x7b" ++ ", ".intercalate (← writeEntries? entries) ++ "\x7d"
  | .measured n =>
    let tokens (units : List String) := "[" ++ ", ".intercalate (units.map quote) ++ "]"
    some ("[" ++ magnitudeText n.magnitude ++ ", " ++ tokens n.above ++ ", " ++ tokens n.below
      ++ "]")
  | _ => none

def writeItems? : List Host → Option (List String)
  | [] => some []
  | h :: rest => do
    let text ← write? h
    return text :: (← writeItems? rest)

def writeEntries? : List (Host × Host) → Option (List String)
  | [] => some []
  | (key, h) :: rest => do
    let name ← nameText key
    let text ← write? h
    return (quote name ++ ": " ++ text) :: (← writeEntries? rest)

end

end SassData.Json
