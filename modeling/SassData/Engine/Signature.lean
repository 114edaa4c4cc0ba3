import SassData.Source.Sheet

/-!
# Signatures

The declaration of a function: its name and its parameters, each with a default or, at most the
last, taking all that is left. The text of a signature is cut at the commas that stand outside
parentheses, brackets and marks; inside marks every character counts as itself, backslashes
included.
-/

namespace SassData

set_option autoImplicit false

structure Parameter where
  name : String
  default : Option Expr
  isRest : Bool

structure Signature where
  name : String
  parameters : List Parameter

namespace Signature

/-- The pieces of a parameter list. The current piece is given in reverse, with the mark it is
inside of and the count of brackets open. A last piece of blanks is none. -/
def splitFrom : Option Char → Int → List Char → List Char → List (List Char)
  | _, _, current, [] => if current.all Text.isBlank then [] else [current.reverse]
  | some mark, depth, current, c :: rest =>
    splitFrom (if c == mark then none else some mark) depth (c :: current) rest
  | none, depth, current, c :: rest =>
    if Text.isMark c then splitFrom (some c) depth (c :: current) rest
    else if c == '(' || c == '[' then splitFrom none (depth + 1) (c :: current) rest
    else if c == ')' || c == ']' then splitFrom none (depth - 1) (c :: current) rest
    else if c == ',' && depth == 0 then current.reverse :: splitFrom none 0 [] rest
    else splitFrom none depth (c :: current) rest

def split (text : List Char) : List (List Char) := splitFrom none 0 [] text

/-- The text of a default after its colon: trimmed, or its last blank if there is nothing else. -/
def defaultText? (text : List Char) : Option (List Char) :=
  match Text.trim text with
  | [] => text.getLast?.map fun c => [c]
  | trimmed => some trimmed

def parameter? (text : List Char) : Option (String × Bool × Option String) := do
  match Text.trimLeft text with
  | '$' :: more =>
    let (name, rest) ← Source.spanName? more
    let name := Text.canonicalName (String.ofList name)
    match Text.trimLeft rest with
    | [] => return (name, false, none)
    | ':' :: rest => return (name, false, some (String.ofList (← defaultText? rest)))
    | '.' :: '.' :: '.' :: rest => if rest.all Text.isBlank then return (name, true, none) else none
    | _ => none
  | _ => none

def startsFunctionName (c : Char) : Bool := Text.isNameStart c || c == '-'

def outline? (text : List Char) : Option (String × List Char) := do
  let text := Text.trim text
  guard (text.head?.any startsFunctionName)
  let (name, rest) := text.span Text.isNameChar
  match Text.trimLeft rest with
  | '(' :: inside =>
    if inside.getLast? == some ')' then
      return (Text.canonicalName (String.ofList name), inside.dropLast)
    else none
  | _ => none

def readParameter (signature : String) (text : List Char) : Outcome Parameter := do
  match parameter? text with
  | none => throw (.invalidParameter (String.ofList (Text.trim text)) signature)
  | some (name, isRest, none) => return ⟨name, none, isRest⟩
  | some (name, isRest, some default) => return ⟨name, some (← Source.readExpr default), isRest⟩

def read (text : String) : Outcome Signature := do
  match outline? text.toList with
  | none => throw (.invalidSignature text)
  | some (name, inside) =>
    let parameters ← (split inside).mapM (readParameter text)
    if parameters.dropLast.any Parameter.isRest then throw (.variadicNotLast text)
    return ⟨name, parameters⟩

end Signature

end SassData
