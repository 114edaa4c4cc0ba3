import SassData.Color
import SassData.Number
import SassData.Text.Quoted

/-!
# Style sheet values

The values that style sheets compute with, the text that shows each of them, and two equalities.
`Value.same` compares structure: separators of lists and spellings of colours are left out, integers
and floating-point numbers compare by number, and texts by their characters, marks included.
`Value.equals` is the equality of the language: on two strings it looks at what the marks enclose
and on two numbers it allows for the tolerance and for units in another order; below the top it is
structural equality again. What is no number, and what is known by its text only, is the same where
it is one thing.
-/

namespace SassData

set_option autoImplicit false

inductive Separator
  | comma
  | space
  | slash
  | undecided
  deriving DecidableEq

def Separator.joiner : Separator → String
  | .comma => ", "
  | .slash => " / "
  | .space | .undecided => " "

/-- A string keeps its text as written, marks and backslashes included. A custom value is one of
which only the text is known. -/
inductive Value
  | null
  | bool (b : Bool)
  | number (n : Number)
  | color (c : Color)
  | string (text : String)
  | list (items : List Value) (separator : Separator) (bracketed : Bool)
  | map (pairs : List (Value × Value))
  | custom (text : String) (identity : Identity)

namespace Value

instance : Inhabited Value := ⟨.null⟩

def typeName : Value → String
  | null => "null"
  | bool _ => "bool"
  | number _ => "number"
  | color _ => "color"
  | string _ => "string"
  | list .. => "list"
  | map _ => "map"
  | custom .. => "value"

def isTruthy : Value → Bool
  | null => false
  | bool b => b
  | _ => true

def isNull : Value → Bool
  | null => true
  | _ => false

/-! ## The text of a value -/

/-- Whether an item of a list stands in parentheses: lists of several items do, unless they have
brackets, or have another separator than comma inside a comma list. -/
def inParens (outer : Separator) : Value → Bool
  | list (_ :: _ :: _) inner false => inner == .comma || outer != .comma
  | _ => false

/-- Whether a value of a map stands in parentheses: comma lists of several items do. -/
def inParensInMap : Value → Bool
  | list (_ :: _ :: _) .comma _ => true
  | _ => false

def parens (yes : Bool) (text : String) : String := if yes then "(" ++ text ++ ")" else text

/-- A list from the texts of its items. A comma list of one item ends in a comma. -/
def listText (items : List String) (separator : Separator) (bracketed : Bool) : String :=
  match items, separator with
  | [], _ => if bracketed then "[]" else "()"
  | [item], .comma => if bracketed then "[" ++ item ++ ",]" else "(" ++ item ++ ",)"
  | items, separator =>
    let body := separator.joiner.intercalate items
    if bracketed then "[" ++ body ++ "]" else body

def mapText (pairs : List String) : String := "(" ++ ", ".intercalate pairs ++ ")"

mutual

def css : Value → String
  | null => "null"
  | bool b => if b then "true" else "false"
  | number n => n.css
  | color c => c.css
  | string text => text
  | list items separator bracketed => listText (itemsCss separator items) separator bracketed
  | map pairs => mapText (pairsCss pairs)
  | custom text _ => text

def itemsCss (outer : Separator) : List Value → List String
  | [] => []
  | item :: rest => parens (inParens outer item) item.css :: itemsCss outer rest

def pairsCss : List (Value × Value) → List String
  | [] => []
  | (key, value) :: rest =>
    (key.css ++ ": " ++ parens (inParensInMap value) value.css) :: pairsCss rest

end

/-- The text of a message made from a value: strings go without their marks. -/
def plainText : Value → String
  | string text => Text.unquote text
  | v => v.css

/-! ## Equality -/

mutual

def same : Value → Value → Bool
  | null, null => true
  | bool a, bool b => a == b
  | number a, number b => a.magnitude.same b.magnitude && a.above == b.above && a.below == b.below
  | color a, color b => a.same b
  | string a, string b => a == b
  | list xs _ a, list ys _ b => sameItems xs ys && a == b
  | map ps, map qs => samePairs ps qs
  | custom _ i, custom _ j => i.same j
  | _, _ => false

def sameItems : List Value → List Value → Bool
  | [], [] => true
  | x :: xs, y :: ys => same x y && sameItems xs ys
  | _, _ => false

def samePairs : List (Value × Value) → List (Value × Value) → Bool
  | [], [] => true
  | (k, v) :: ps, (l, w) :: qs => same k l && same v w && samePairs ps qs
  | _, _ => false

end

def equals : Value → Value → Outcome Bool
  | string a, string b => .ok (Text.unquote a == Text.unquote b)
  | number a, number b =>
    if a.sameUnits b then Outcome.ofArithmetic (a.magnitude.close b.magnitude) else .ok false
  | a, b => .ok (a.same b)

/-! ## Lists and maps -/

/-- The value as the items of a list: a map gives its pairs, and a single value itself. -/
def asList : Value → List Value × Separator × Bool
  | list items separator bracketed => (items, separator, bracketed)
  | map pairs => (pairs.map fun (k, v) => list [k, v] .space false, .comma, false)
  | v => ([v], .undecided, false)

def items (v : Value) : List Value := v.asList.1

def toList (v : Value) : Value :=
  let (items, separator, bracketed) := v.asList
  list items separator bracketed

/-- Whether two values are the same key of a map: strings are by what their marks enclose. -/
def sameKey : Value → Value → Bool
  | string a, string b => Text.unquote a == Text.unquote b
  | a, b => a.same b

/-- What a key is paired with; the last pair counts. -/
def lookup? (pairs : List (Value × Value)) (key : Value) : Option Value :=
  (pairs.reverse.find? fun pair => sameKey pair.1 key).map Prod.snd

def item? (items : List Value) (index : Int) : Option Value :=
  if index < 0 then none else items[index.toNat]?

/-! ## Values of a certain type -/

def expected {α : Type} (v : Value) (name : Option String) (kind : String) : Outcome α :=
  .error (.expected name v.css kind)

def assertString (v : Value) (name : Option String) : Outcome String :=
  match v with
  | string text => .ok text
  | v => v.expected name "string"

def assertNumber (v : Value) (name : Option String) : Outcome Number :=
  match v with
  | number n => .ok n
  | v => v.expected name "number"

def assertColor (v : Value) (name : Option String) : Outcome Color :=
  match v with
  | color c => .ok c
  | v => v.expected name "color"

def assertMap (v : Value) (name : Option String) : Outcome (List (Value × Value)) :=
  match v with
  | map pairs => .ok pairs
  | v => v.expected name "map"

/-- The string followed by the text of a value; its own marks go around the whole. -/
def concat (text : String) (other : Value) : Value :=
  let joined := Text.unquote text ++ other.plainText
  match Text.mark? text with
  | some mark => string (Text.quote joined (String.singleton mark))
  | none => string joined

end Value

end SassData
