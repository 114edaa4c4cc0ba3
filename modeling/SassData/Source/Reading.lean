import SassData.Source.Lexeme

/-!
# Reading expressions

An expression is read token by token. What is open around the place of reading is a stack of
frames, innermost first; what stands at the place is the focus. Taking a token either closes frames
and opens others or shows that the text cannot go on like this. Operators of one level group to the
left, so an operator closes the frames that bind at least as tightly; whatever begins an operand
after an operand begins the next item of a space list. A word is an operator only where an operand
has ended.

A colour literal or a call that makes no sense is noted and becomes null: it matters only if the
text is otherwise well formed, and then the first one does.
-/

namespace SassData.Source

set_option autoImplicit false

inductive Argument
  | positional (value : Expr)
  | keyword (name : String) (value : Expr)
  | spread (value : Expr)

/-- What is open and waits for the operand under way. Lists of what came before are reversed. -/
inductive Frame
  | unary (op : UnaryOp)
  | binary (left : Expr) (op : BinaryOp)
  | spaced (before : List Expr)
  | commas (before : List Expr)
  | paren
  | bracket
  | mapKey (before : List (Expr × Expr))
  | mapValue (before : List (Expr × Expr)) (key : Expr)
  | argument (function : String) (before : List Argument)
  | keyword (function : String) (before : List Argument) (name : String)

/-- What stands at the place of reading: nothing yet, a variable just read, an operand, or an
argument that is complete. -/
inductive Focus
  | nothing
  | variable (name : String)
  | operand (expr : Expr)
  | complete

structure Reading where
  frames : List Frame
  focus : Focus
  fault : Option Failure

namespace Reading

def start : Reading := ⟨[], .nothing, none⟩

def focusOn (r : Reading) (expr : Expr) : Reading := { r with focus := .operand expr }

def note (r : Reading) (fault : Failure) : Reading := { r with fault := r.fault.or (some fault) }

/-! ## Closing frames -/

/-- Closes the operators that bind at least as tightly as a level around an operand. -/
def closeOperators (level : Nat) : List Frame → Expr → List Frame × Expr
  | .unary op :: frames, e => closeOperators level frames (.unary op e)
  | .binary left op :: frames, e =>
    if level ≤ op.level then closeOperators level frames (.binary op left e)
    else (.binary left op :: frames, e)
  | frames, e => (frames, e)

/-- Closes all operators and the space list around an operand. -/
def closeItem (frames : List Frame) (e : Expr) : List Frame × Expr :=
  match closeOperators 0 frames e with
  | (.spaced before :: frames, e) => (frames, .list (e :: before).reverse .space false)
  | closed => closed

def closeCommas (frames : List Frame) (e : Expr) : List Frame × Expr :=
  match frames with
  | .commas before :: frames => (frames, .list (e :: before).reverse .comma false)
  | frames => (frames, e)

def inBrackets : Expr → Expr
  | .list items separator false => .list items separator true
  | e => .list [e] .undecided true

/-- Whether a positional argument follows a keyword or a spread one. -/
def isMisplaced : List Argument → Bool
  | [] => false
  | .positional _ :: rest => isMisplaced rest
  | _ :: rest => rest.any fun
    | .positional _ => true
    | _ => false

/-- The call with its arguments sorted by kind; of several spread ones the last counts. -/
def callOf (function : String) (arguments : List Argument) : Expr :=
  .call function
    (arguments.filterMap fun
      | .positional e => some e
      | _ => none)
    (arguments.filterMap fun
      | .keyword name e => some (name, e)
      | _ => none)
    (arguments.reverse.findSome? fun
      | .spread e => some e
      | _ => none)

def closeCall (r : Reading) (frames : List Frame) (function : String) (before : List Argument) :
    Reading :=
  let arguments := before.reverse
  let r := { r with frames := frames }
  if isMisplaced arguments then (r.note (.misplacedArgument function)).focusOn (.literal .null)
  else r.focusOn (callOf function arguments)

/-- What a complete item does to the frame around it when a parenthesis closes. -/
def closeParen? (r : Reading) (frames : List Frame) (e : Expr) : Option Reading :=
  match frames with
  | .commas before :: .paren :: frames =>
    some { r with frames, focus := .operand (.list (e :: before).reverse .comma false) }
  | .paren :: frames => some { r with frames, focus := .operand e }
  | .mapValue before key :: frames =>
    some { r with frames, focus := .operand (.map ((key, e) :: before).reverse) }
  | .argument function before :: frames =>
    some (r.closeCall frames function (.positional e :: before))
  | .keyword function before name :: frames =>
    some (r.closeCall frames function (.keyword name e :: before))
  | _ => none

/-! ## Tokens -/

/-- A word that is not an operator: a constant, a colour or a text. -/
def wordValue (word : String) : Value :=
  if word == "null" then .null
  else if word == "true" then .bool true
  else if word == "false" then .bool false
  else match Color.ofName? word with
    | some color => .color color
    | none => .string word

def begin? (r : Reading) (token : Token) : Option Reading :=
  let opening (frame : Frame) : Option Reading :=
    some { r with frames := frame :: r.frames, focus := .nothing }
  match token with
  | .number n => some (r.focusOn (.literal (.number n)))
  | .string text => some (r.focusOn (.literal (.string text)))
  | .hash text =>
    match Color.ofHex? text with
    | some color => some (r.focusOn (.literal (.color color)))
    | none => some ((r.note (.invalidHex text)).focusOn (.literal .null))
  | .variable name => some { r with focus := .variable (Text.canonicalName name) }
  | .word word =>
    if word == "not" then opening (.unary .not) else some (r.focusOn (.literal (wordValue word)))
  | .call function => opening (.argument function [])
  | .symbol .minus => opening (.unary .minus)
  | .symbol .openParen => opening .paren
  | .symbol .openBracket => opening .bracket
  | _ => none

/-- Takes a closing token where an operand is still missing: after an opening one, or after a comma
that may end a list. -/
def endEmpty? (r : Reading) (token : Token) : Option Reading :=
  match token, r.frames with
  | .symbol .closeParen, .paren :: frames =>
    some { r with frames, focus := .operand (.list [] .undecided false) }
  | .symbol .closeParen, .commas before :: .paren :: frames =>
    some { r with frames, focus := .operand (.list before.reverse .comma false) }
  | .symbol .closeParen, .mapKey before :: frames =>
    if before.isEmpty then none
    else some { r with frames, focus := .operand (.map before.reverse) }
  | .symbol .closeParen, .argument function before :: frames =>
    some (r.closeCall frames function before)
  | .symbol .closeBracket, .bracket :: frames =>
    some { r with frames, focus := .operand (.list [] .undecided true) }
  | .symbol .closeBracket, .commas before :: .bracket :: frames =>
    some { r with frames, focus := .operand (.list before.reverse .comma true) }
  | _, _ => none

def binaryOp? : Token → Option BinaryOp
  | .word word => if word == "and" then some .and else if word == "or" then some .or else none
  | .symbol .eq => some .eq
  | .symbol .ne => some .ne
  | .symbol .lt => some .lt
  | .symbol .le => some .le
  | .symbol .gt => some .gt
  | .symbol .ge => some .ge
  | .symbol .plus => some .add
  | .symbol .minus => some .sub
  | .symbol .star => some .mul
  | .symbol .slash => some .div
  | .symbol .percent => some .mod
  | _ => none

def comma? (r : Reading) (frames : List Frame) (e : Expr) : Option Reading :=
  let going (frame : Frame) (frames : List Frame) : Option Reading :=
    some { r with frames := frame :: frames, focus := .nothing }
  match frames with
  | .commas before :: frames => going (.commas (e :: before)) frames
  | .mapValue before key :: frames => going (.mapKey ((key, e) :: before)) frames
  | .argument function before :: frames =>
    going (.argument function (.positional e :: before)) frames
  | .keyword function before name :: frames =>
    going (.argument function (.keyword name e :: before)) frames
  | [] => going (.commas [e]) []
  | .paren :: frames => going (.commas [e]) (.paren :: frames)
  | .bracket :: frames => going (.commas [e]) (.bracket :: frames)
  | _ => none

/-- A colon after a complete item: the item was the key of a map. -/
def colon? (r : Reading) (frames : List Frame) (e : Expr) : Option Reading :=
  match frames with
  | .paren :: frames => some { r with frames := .mapValue [] e :: frames, focus := .nothing }
  | .mapKey before :: frames =>
    some { r with frames := .mapValue before e :: frames, focus := .nothing }
  | _ => none

/-- Begins the next item of a space list after an operand. -/
def nextItem? (r : Reading) (e : Expr) (token : Token) : Option Reading :=
  let (frames, e) := closeOperators 0 r.frames e
  let frames := match frames with
    | .spaced before :: frames => .spaced (e :: before) :: frames
    | frames => .spaced [e] :: frames
  begin? { r with frames, focus := .nothing } token

def continue? (r : Reading) (e : Expr) (token : Token) : Option Reading :=
  match binaryOp? token with
  | some op =>
    let (frames, e) := closeOperators op.level r.frames e
    some { r with frames := .binary e op :: frames, focus := .nothing }
  | none =>
    let (frames, item) := closeItem r.frames e
    match token with
    | .symbol .comma => comma? r frames item
    | .symbol .colon => colon? r frames item
    | .symbol .closeParen => closeParen? r frames item
    | .symbol .closeBracket =>
      match closeCommas frames item with
      | (.bracket :: frames, e) => some { r with frames, focus := .operand (inBrackets e) }
      | _ => none
    | .symbol .ellipsis =>
      match frames with
      | .argument function before :: frames =>
        some { r with
          frames := .argument function (.spread item :: before) :: frames, focus := .complete }
      | _ => none
    | token => nextItem? r e token

/-- Takes a token after a variable: in a call a colon makes it the name of a keyword. -/
def afterVariable? (r : Reading) (name : String) (token : Token) : Option Reading :=
  match token, r.frames with
  | .symbol .colon, .argument function before :: frames =>
    some { r with frames := .keyword function before name :: frames, focus := .nothing }
  | token, _ => continue? r (.variable name) token

def afterArgument? (r : Reading) (token : Token) : Option Reading :=
  match token, r.frames with
  | .symbol .comma, .argument .. :: _ => some { r with focus := .nothing }
  | .symbol .closeParen, .argument function before :: frames =>
    some (r.closeCall frames function before)
  | _, _ => none

/-- Takes a token, or tells that it cannot stand here. -/
def push? (r : Reading) (token : Token) : Option Reading :=
  match r.focus with
  | .nothing => (begin? r token).or (endEmpty? r token)
  | .variable name => afterVariable? r name token
  | .operand e => continue? r e token
  | .complete => afterArgument? r token

/-- The expression read, if it may end here. -/
def finish? (r : Reading) : Option Expr :=
  let closed (e : Expr) : Option Expr :=
    let (frames, e) := closeItem r.frames e
    match closeCommas frames e with
    | ([], e) => some e
    | _ => none
  match r.focus with
  | .nothing =>
    match r.frames with
    | [.commas before] => some (.list before.reverse .comma false)
    | _ => none
  | .variable name => closed (.variable name)
  | .operand e => closed e
  | .complete => none

end Reading

/-! ## Whole texts -/

/-- Takes lexemes one by one; the position is that of the first that cannot stand where it does. -/
def readAll {σ : Type} (push? : σ → Token → Option σ) : σ → List Lexeme → Except Position σ
  | s, [] => .ok s
  | s, lexeme :: rest =>
    match push? s lexeme.token with
    | some s => readAll push? s rest
    | none => .error lexeme.position

def lastPosition (lexemes : List Lexeme) : Position :=
  (lexemes.getLast?.map Lexeme.position).getD .start

/-- What was read from the lexemes of a whole text, its first fault included. -/
def readWhole {σ α : Type} (push? : σ → Token → Option σ)
    (finish? : σ → Option (α × Option Failure)) (start : σ) (lexemes : List Lexeme) : Outcome α :=
  match readAll push? start lexemes with
  | .error p => .error (.malformed p.line p.column)
  | .ok s =>
    match finish? s with
    | none =>
      let p := lastPosition lexemes
      .error (.malformed p.line p.column)
    | some (_, some fault) => .error (.unreadable fault)
    | some (a, none) => .ok a

def readExpr (source : String) : Outcome Expr :=
  readWhole Reading.push? (fun r => r.finish?.map fun e => (e, r.fault)) .start
    (scan (.expression false) source)

end SassData.Source
