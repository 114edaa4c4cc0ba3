import SassData.Document.Json

/-!
# TOML documents

Reading a text as TOML into host data. A document is a sequence of statements: a key with a value,
the header of a table, or the header of one more table in an array. Keys are dotted paths. A table
that a header has opened, or that dotted keys have filled, is not opened again, and what a value has
written inline is closed for good; both are remembered as marks on paths. Dates and times are
checked and have no counterpart in host data.
-/

namespace SassData.Toml

set_option autoImplicit false

open Number (Binary64)

abbrev Path := List String

/-! ## Characters -/

def isSpace (c : Char) : Bool := c == ' ' || c == '\t'

def skipSpace (text : List Char) : List Char := text.dropWhile isSpace

def isBare (c : Char) : Bool := c.isAlphanum || c == '-' || c == '_'

def isControl (c : Char) : Bool := (c.toNat < 0x20 && c != '\t') || c.toNat == 0x7f

def skipComment (text : List Char) : Option (List Char) :=
  match text with
  | '#' :: rest =>
    let (comment, rest) := rest.span (· != '\n')
    if comment.any isControl then none else some rest
  | text => some text

/-- Passes over blanks, line breaks and comments inside an array. -/
def skipLines : Nat → List Char → Option (List Char)
  | 0, text => some text
  | n + 1, text => do
    let text := text.dropWhile fun c => isSpace c || c == '\n'
    match text with
    | '#' :: _ => skipLines n (← skipComment text)
    | text => return text

/-! ## Strings -/

def simpleEscape? : Char → Option Char
  | '"' => some '"'
  | '\\' => some '\\'
  | 'b' => some '\x08'
  | 't' => some '\t'
  | 'n' => some '\n'
  | 'f' => some '\x0c'
  | 'r' => some '\r'
  | _ => none

/-- The character whose number is written with a count of hexadecimal digits. -/
def numbered? (count : Nat) (text : List Char) : Option (Char × List Char) := do
  let digits := text.take count
  guard (digits.length == count)
  let values ← digits.mapM Text.hexDigit?
  let n := values.foldl (fun n d => n * 16 + d) 0
  if n.isValidChar then return (Char.ofNat n, text.drop count) else none

/-- The rest of a text after a line break that is escaped in a string of several lines. -/
def afterFoldedLine? (text : List Char) : Option (List Char) :=
  match skipSpace text with
  | [] => some []
  | '\n' :: rest => some (rest.dropWhile fun c => isSpace c || c == '\n')
  | _ => none

/-- What follows the backslash of an escape: the spelling of its character, if it has one, and the
rest. -/
def escape? (lines : Bool) (text : List Char) : Option (List Char × List Char) :=
  match text with
  | [] => none
  | c :: rest =>
    if lines && (c == ' ' || c == '\t' || c == '\n') then
      (afterFoldedLine? text).map fun rest => ([], rest)
    else if c == 'u' then (numbered? 4 rest).map fun (c, rest) => (Text.ofChar c, rest)
    else if c == 'U' then (numbered? 8 rest).map fun (c, rest) => (Text.ofChar c, rest)
    else (simpleEscape? c).map fun c => ([c], rest)

/-- A string in double marks on one line, after its opening mark. -/
def basic? : Nat → List Char → List Char → Option (String × List Char)
  | 0, _, _ => none
  | n + 1, before, text =>
    match text with
    | [] => none
    | '"' :: rest => some (String.ofList before.reverse, rest)
    | '\\' :: rest =>
      match escape? false rest with
      | some (spelling, rest) => basic? n (spelling.reverse ++ before) rest
      | none => none
    | c :: rest => if isControl c then none else basic? n (c :: before) rest

/-- Up to two marks more than the three that end a string belong to the string. -/
def closing (mark : Char) (before rest : List Char) : String × List Char :=
  match rest with
  | a :: b :: more =>
    if a == mark then
      if b == mark then (String.ofList (mark :: mark :: before).reverse, more)
      else (String.ofList (mark :: before).reverse, b :: more)
    else (String.ofList before.reverse, rest)
  | [a] =>
    if a == mark then (String.ofList (mark :: before).reverse, [])
    else (String.ofList before.reverse, rest)
  | [] => (String.ofList before.reverse, [])

/-- A string of several lines, after its opening marks; backslashes escape only between double
marks. -/
def lines? (mark : Char) : Nat → List Char → List Char → Option (String × List Char)
  | 0, _, _ => none
  | n + 1, before, text =>
    match text with
    | [] => none
    | c :: rest =>
      if [mark, mark, mark].isPrefixOf text then some (closing mark before (text.drop 3))
      else if c == '\\' && mark == '"' then
        match escape? true rest with
        | some (spelling, rest) => lines? mark n (spelling.reverse ++ before) rest
        | none => none
      else if isControl c && c != '\n' then none
      else lines? mark n (c :: before) rest

def literal? (text : List Char) : Option (String × List Char) :=
  let (inner, rest) := text.span (· != '\'')
  match rest with
  | '\'' :: rest => if inner.any isControl then none else some (String.ofList inner, rest)
  | _ => none

def dropLineBreak : List Char → List Char
  | '\n' :: rest => rest
  | text => text

def string? (text : List Char) : Option (String × List Char) :=
  match text with
  | '"' :: '"' :: '"' :: rest => lines? '"' (rest.length + 1) [] (dropLineBreak rest)
  | '"' :: rest => basic? (rest.length + 1) [] rest
  | '\'' :: '\'' :: '\'' :: rest => lines? '\'' (rest.length + 1) [] (dropLineBreak rest)
  | '\'' :: rest => literal? rest
  | _ => none

/-! ## Keys -/

def keyPart? (text : List Char) : Option (String × List Char) :=
  match text with
  | '"' :: rest => basic? (rest.length + 1) [] rest
  | '\'' :: rest => literal? rest
  | text =>
    let (name, rest) := text.span isBare
    if name.isEmpty then none else some (String.ofList name, rest)

/-- A dotted key and the rest of the text, blanks after the key passed over. -/
def key? : Nat → List Char → Option (Path × List Char)
  | 0, _ => none
  | n + 1, text => do
    let (part, rest) ← keyPart? text
    match skipSpace rest with
    | '.' :: rest =>
      let (path, rest) ← key? n (skipSpace rest)
      return (part :: path, rest)
    | rest => return ([part], rest)

/-! ## Numbers -/

/-- Digits of a class with single underscores between them: the digits, and the rest. -/
def digits? (isDigit : Char → Bool) : List Char → Option (List Char × List Char)
  | [] => none
  | c :: rest =>
    if isDigit c then
      match rest with
      | '_' :: d :: more =>
        if isDigit d then
          match digits? isDigit (d :: more) with
          | some (digits, rest) => some (c :: digits, rest)
          | none => some ([c], rest)
        else some ([c], rest)
      | rest =>
        match digits? isDigit rest with
        | some (digits, rest) => some (c :: digits, rest)
        | none => some ([c], rest)
    else none

def inBase (base : Nat) (digits : List Char) : Nat :=
  digits.foldl (fun n c => n * base + (Text.hexDigit? c).getD 0) 0

def isDigitIn (base : Nat) (c : Char) : Bool := (Text.hexDigit? c).any (· < base)

def based? (text : List Char) : Option (Host × List Char) := do
  let (base, rest) ← match text with
    | '0' :: 'x' :: rest => some (16, rest)
    | '0' :: 'o' :: rest => some (8, rest)
    | '0' :: 'b' :: rest => some (2, rest)
    | _ => none
  let (digits, rest) ← digits? (isDigitIn base) rest
  return (.number (.int (inBase base digits)), rest)

def sign : List Char → Bool × List Char
  | '-' :: rest => (true, rest)
  | '+' :: rest => (false, rest)
  | text => (false, text)

def fraction? (text : List Char) : Option (List Char × List Char) :=
  match text with
  | '.' :: rest => digits? Char.isDigit rest
  | _ => none

def exponent? (text : List Char) : Option (Int × List Char) :=
  match text with
  | c :: rest =>
    if c == 'e' || c == 'E' then do
      let (negative, rest) := sign rest
      let (digits, rest) ← digits? Char.isDigit rest
      let n : Int := inBase 10 digits
      return (if negative then -n else n, rest)
    else none
  | [] => none

def decimal? (text : List Char) : Option (Host × List Char) := do
  let (negative, unsigned) := sign text
  let (digits, rest) ← match unsigned with
    | '0' :: rest => some (['0'], rest)
    | text => digits? Char.isDigit text
  let fraction := fraction? rest
  let rest := (fraction.map Prod.snd).getD rest
  let places := (fraction.map Prod.fst).getD []
  let exponent := exponent? rest
  let rest := (exponent.map Prod.snd).getD rest
  let n := inBase 10 (digits ++ places)
  if fraction.isNone && exponent.isNone then
    return (.number (.int (if negative then -(n : Int) else n)), rest)
  else
    let e := (exponent.map Prod.fst).getD 0 - (places.length : Int)
    return (.number (.float (Binary64.ofDecimal negative n e)), rest)

def special? (text : List Char) : Option (Host × List Char) :=
  let (negative, rest) := sign text
  if "inf".toList.isPrefixOf rest then
    some (.number (.float (.infinity negative)), rest.drop 3)
  else if "nan".toList.isPrefixOf rest then
    some (.number (.float (.nan negative .passing)), rest.drop 3)
  else none

/-! ## Dates and times -/

/-- A number of exactly so many digits within bounds. -/
def fixed? (count low high : Nat) (text : List Char) : Option (Nat × List Char) :=
  let digits := text.take count
  let n := inBase 10 digits
  if digits.length == count && digits.all Char.isDigit && low ≤ n && n ≤ high then
    some (n, text.drop count)
  else none

def char? (c : Char) (text : List Char) : Option (List Char) :=
  match text with
  | d :: rest => if c == d then some rest else none
  | [] => none

/-- The rest of a text after a time of day, a fraction of a second included. -/
def time? (text : List Char) : Option (List Char) := do
  let (_, rest) ← fixed? 2 0 23 text
  let (_, rest) ← fixed? 2 0 59 (← char? ':' rest)
  let (_, rest) ← fixed? 2 0 59 (← char? ':' rest)
  match rest with
  | '.' :: more =>
    let (digits, more) := more.span Char.isDigit
    return if digits.isEmpty then rest else more
  | _ => return rest

def offset (text : List Char) : List Char :=
  match text with
  | 'Z' :: rest | 'z' :: rest => rest
  | c :: rest =>
    if c == '+' || c == '-' then
      ((do
        let (_, rest) ← fixed? 2 0 23 rest
        let (_, rest) ← fixed? 2 0 59 (← char? ':' rest)
        return rest) : Option (List Char)).getD text
    else text
  | [] => []

def isLeapYear (year : Nat) : Bool :=
  year % 4 == 0 && (year % 100 != 0 || year % 400 == 0)

def daysIn (year month : Nat) : Nat :=
  if month == 2 then if isLeapYear year then 29 else 28
  else if month ∈ [4, 6, 9, 11] then 30 else 31

/-- A date, alone or with a time of day and an offset: whether the date exists, and the rest. -/
def date? (text : List Char) : Option (Bool × List Char) := do
  let (year, rest) ← fixed? 4 0 9999 text
  let (month, rest) ← fixed? 2 1 12 (← char? '-' rest)
  let (day, rest) ← fixed? 2 1 31 (← char? '-' rest)
  let valid := 1 ≤ year && day ≤ daysIn year month
  match rest with
  | c :: more =>
    if c == 'T' || c == 't' || c == ' ' then
      match time? more with
      | some after => return (valid, offset after)
      | none => return (valid, rest)
    else return (valid, rest)
  | [] => return (valid, rest)

/-! ## Tables -/

/-- The table at the end of a path, put through a change; tables on the way are made, and an array
on the way, unless it may not be entered, is entered at its last table. -/
def within (enterArrays : Bool) (change : Named Host → Option (Named Host)) :
    Path → Named Host → Option (Named Host)
  | [], table => change table
  | part :: path, table => do
    let inner (entries : List (Host × Host)) : Named Host :=
      entries.filterMap fun (key, h) => match key with
        | .text name => some (name, h)
        | _ => none
    let dict (entries : Named Host) : Host := .dict (entries.map fun (name, h) => (.text name, h))
    match table.get? part with
    | none => return table.put part (dict (← within enterArrays change path []))
    | some (.dict entries) =>
      return table.put part (dict (← within enterArrays change path (inner entries)))
    | some (.list items) =>
      match enterArrays, items.getLast? with
      | true, some (.dict entries) =>
        let last := dict (← within enterArrays change path (inner entries))
        return table.put part (.list (items.dropLast ++ [last]))
      | _, _ => none
    | some _ => none

def insert (enterArrays : Bool) (path : Path) (name : String) (h : Host) (table : Named Host) :
    Option (Named Host) :=
  within enterArrays (fun inner =>
    if (inner.get? name).isSome then none else some (inner.put name h)) path table

def appendTable (path : Path) (table : Named Host) : Option (Named Host) := do
  let name ← path.getLast?
  within true (fun inner =>
    match inner.get? name with
    | none => some (inner.put name (.list [.dict []]))
    | some (.list items) => some (inner.put name (.list (items ++ [.dict []])))
    | some _ => none) path.dropLast table

/-- What may not be done to a path: a closed one and all below it may not be changed, and one that
was opened may not be opened again. -/
inductive Mark
  | closed
  | opened
  deriving DecidableEq

abbrev Marks := List (Path × Mark)

def Marks.isClosed (marks : Marks) (path : Path) : Bool :=
  !path.isEmpty && marks.any fun (p, mark) => mark == .closed && p.isPrefixOf path

def Marks.isOpened (marks : Marks) (path : Path) : Bool :=
  !path.isEmpty && marks.any fun (p, mark) => mark == .opened && p == path

/-- The marks without those on a path and below it. -/
def Marks.forget (marks : Marks) (path : Path) : Marks :=
  marks.filter fun (p, _) => !path.isPrefixOf p

def isContainer : Host → Bool
  | .dict _ => true
  | .list _ => true
  | _ => false

/-! ## Values -/

def beginnings (path : Path) : List Path :=
  (List.range (path.length - 1)).map fun n => path.take (n + 1)

mutual

def value? : Nat → List Char → Option (Host × List Char)
  | 0, _ => none
  | n + 1, text =>
    match text with
    | '"' :: _ => (string? text).map fun (s, rest) => (.text s, rest)
    | '\'' :: _ => (string? text).map fun (s, rest) => (.text s, rest)
    | '[' :: rest => do
      match ← skipLines rest.length rest with
      | ']' :: rest => return (.list [], rest)
      | rest =>
        let (items, rest) ← items? n [] rest
        return (.list items, rest)
    | '\x7b' :: rest =>
      match skipSpace rest with
      | '\x7d' :: rest => some (.dict [], rest)
      | rest => (members? n [] [] rest).map fun (table, rest) => (Host.dictOfNamed table, rest)
    | text =>
      if "true".toList.isPrefixOf text then some (.bool true, text.drop 4)
      else if "false".toList.isPrefixOf text then some (.bool false, text.drop 5)
      else match date? text with
      | some (valid, rest) => if valid then some (.foreign, rest) else none
      | none =>
        match time? text with
        | some rest => some (.foreign, rest)
        | none => ((based? text).or (decimal? text)).or (special? text)

def items? : Nat → List Host → List Char → Option (List Host × List Char)
  | 0, _, _ => none
  | n + 1, before, text => do
    let (h, rest) ← value? n text
    match ← skipLines rest.length rest with
    | ']' :: rest => return ((h :: before).reverse, rest)
    | ',' :: rest =>
      match ← skipLines rest.length rest with
      | ']' :: rest => return ((h :: before).reverse, rest)
      | rest => items? n (h :: before) rest
    | _ => none

/-- The members of an inline table after those in the table given, on one line and without a comma
at the end. -/
def members? : Nat → Marks → Named Host → List Char → Option (Named Host × List Char)
  | 0, _, _, _ => none
  | n + 1, marks, table, text => do
    let (path, rest) ← key? text.length text
    let '=' :: rest := rest | none
    let (h, rest) ← value? n (skipSpace rest)
    let name ← path.getLast?
    guard (!marks.isClosed path)
    let table ← insert false path.dropLast name h table
    match skipSpace rest with
    | '\x7d' :: rest => return (table, rest)
    | ',' :: rest =>
      let marks := if isContainer h then (path, .closed) :: marks else marks
      members? n marks table (skipSpace rest)
    | _ => none

end

/-! ## Documents -/

/-- A document under way: its tables, the header in force, the marks, and those that the next
header brings into force. -/
structure Reading where
  table : Named Host
  header : Path
  marks : Marks
  pending : Marks

def assignment? (r : Reading) (text : List Char) : Option (Reading × List Char) := do
  let (path, rest) ← key? text.length text
  let '=' :: rest := rest | none
  let (h, rest) ← value? (2 * rest.length + 1) (skipSpace rest)
  let name ← path.getLast?
  let prefixes := (beginnings path).map fun p => r.header ++ p
  guard (!prefixes.any r.marks.isOpened)
  let parent := r.header ++ path.dropLast
  guard (!r.marks.isClosed parent)
  let table ← insert true parent name h r.table
  let marks := if isContainer h then (r.header ++ path, .closed) :: r.marks else r.marks
  return ({ r with table, marks, pending := prefixes.map (·, .opened) ++ r.pending }, rest)

def tableHeader? (r : Reading) (text : List Char) : Option (Reading × List Char) := do
  let (path, rest) ← key? text.length (skipSpace text)
  guard (!r.marks.isOpened path && !r.marks.isClosed path)
  let table ← within true some path r.table
  let ']' :: rest := rest | none
  return ({ r with table, header := path, marks := (path, .opened) :: r.marks }, rest)

/-- The header of one more table in an array, after its opening brackets. -/
def arrayHeader? (r : Reading) (text : List Char) : Option (Reading × List Char) := do
  let (path, rest) ← key? text.length (skipSpace text)
  guard (!r.marks.isClosed path)
  let table ← appendTable path r.table
  let ']' :: ']' :: rest := rest | none
  return ({ r with table, header := path, marks := (path, .opened) :: r.marks.forget path }, rest)

/-- The statement at the front of a text, which is not blank. -/
def statement? (r : Reading) (text : List Char) : Option (Reading × List Char) :=
  let settled := { r with marks := r.pending ++ r.marks, pending := [] }
  match text with
  | '[' :: '[' :: rest => arrayHeader? settled rest
  | '[' :: rest => tableHeader? settled rest
  | '#' :: _ => some (r, text)
  | text => assignment? r text

/-- The statements of a document, one a line; the number bounds the lines. -/
def document? : Nat → Reading → List Char → Option (Named Host)
  | 0, _, _ => none
  | n + 1, r, text =>
    match skipSpace text with
    | [] => some r.table
    | '\n' :: rest => document? n r rest
    | text => do
      let (r, rest) ← statement? r text
      match ← skipComment (skipSpace rest) with
      | [] => return r.table
      | '\n' :: rest => document? n r rest
      | _ => none

def read (text : String) : Outcome Host :=
  match document? (text.length + 1) ⟨[], [], [], []⟩ text.toList with
  | some table => .ok (Host.dictOfNamed table)
  | none => .error .invalidToml

end SassData.Toml
