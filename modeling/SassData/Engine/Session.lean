import SassData.Engine.Builtin
import SassData.Engine.Evaluation
import SassData.Value.Hold

/-!
# Sessions

Running statements in order: variables are set, rules are written out, messages are collected. What
a variable is set to is held from then on, with one count for the whole session. A failure ends the
run and leaves behind what the statements before it did. A compilation is a session of one style
sheet.
-/

namespace SassData

set_option autoImplicit false

structure Session where
  functions : Registry
  assigned : Named Value
  debug : List String
  trace : List Invocation
  held : Nat

namespace Session

/-- A session with the built-in functions and others, which go before them. -/
def start (functions : Registry) : Session := ⟨Builtin.registry.merge functions, [], [], [], 0⟩

def evaluate (s : Session) (e : Expr) : Outcome (Value × List Invocation) :=
  (Evaluation.evaluate ⟨s.functions, s.assigned⟩ e).run s.trace

mutual

/-- A value as a declaration shows it: nulls in lists are left out, and so are parentheses. -/
def declarationText : Value → String
  | .list items separator bracketed =>
    let body := separator.joiner.intercalate (declarationTexts items)
    if bracketed then "[" ++ body ++ "]" else body
  | v => v.css

def declarationTexts : List Value → List String
  | [] => []
  | .null :: rest => declarationTexts rest
  | v :: rest => declarationText v :: declarationTexts rest

end

/-- The text of a declaration's value; none for null. Maps and empty lists without brackets are no
values of CSS. -/
def declared? (v : Value) : Outcome (Option String) :=
  match v with
  | .null => .ok none
  | .map _ => .error (.notCss v.css)
  | .list [] _ false => .error (.notCss v.css)
  | v => .ok (some (declarationText v))

def declarationLines (s : Session) : List (String × Expr) → Outcome (List String × Session)
  | [] => .ok ([], s)
  | (property, e) :: rest => do
    let (v, trace) ← s.evaluate e
    let text ← declared? v
    let (lines, s) ← declarationLines { s with trace := trace } rest
    match text with
    | some text => return (("  " ++ property ++ ": " ++ text ++ ";") :: lines, s)
    | none => return (lines, s)

/-- The text of a rule, none if it has no lines. -/
def blockText? (selector : String) (lines : List String) : Option String :=
  if lines.isEmpty then none
  else some (selector ++ " \x7b\n" ++ "\n".intercalate lines ++ "\n\x7d")

def isSet (s : Session) (name : String) : Bool :=
  match s.assigned.get? name with
  | some v => !v.isNull
  | none => false

/-- One statement: the session after it and the text it writes. -/
def step (s : Session) : Statement → Outcome (Session × Option String)
  | .assign name e flags => do
    if Flag.default ∈ flags && s.isSet name then return (s, none)
    let (v, trace) ← s.evaluate e
    let (v, held) := v.hold s.held
    return ({ s with assigned := Named.put name v s.assigned, trace := trace, held := held }, none)
  | .rule selector declarations => do
    let (lines, s) ← s.declarationLines declarations
    return (s, blockText? selector lines)
  | .debug e => do
    let (v, trace) ← s.evaluate e
    return ({ s with debug := s.debug ++ [v.plainText], trace := trace }, none)
  | .error e => do
    let (v, _) ← s.evaluate e
    throw (.reported v.plainText)

def run (s : Session) : List Statement → Session × Outcome (List String)
  | [] => (s, .ok [])
  | statement :: rest =>
    match s.step statement with
    | .error failure => (s, .error failure)
    | .ok (next, text) =>
      let (last, blocks) := next.run rest
      (last, blocks.map (text.toList ++ ·))

/-- The style sheet of its blocks, with a blank line between them. -/
def sheetText (blocks : List String) : String :=
  if blocks.isEmpty then "" else "\n\n".intercalate blocks ++ "\n"

def runSource (s : Session) (source : String) : Session × Outcome String :=
  match Source.readSheet source with
  | .error failure => (s, .error failure)
  | .ok statements =>
    let (last, blocks) := s.run statements
    (last, blocks.map sheetText)

end Session

structure Compiled where
  css : String
  assigned : Named Value
  debug : List String
  trace : List Invocation

abbrev Declarations := List (String × (List Value → Outcome Reply))

def compile (source : String) (functions : Declarations) : Outcome Compiled := do
  let statements ← Source.readSheet source
  let (s, blocks) := (Session.start (← Registry.ofDeclarations functions)).run statements
  return ⟨Session.sheetText (← blocks), s.assigned, s.debug, s.trace⟩

def evaluateSource (source : String) (functions : Declarations) : Outcome Value := do
  let e ← Source.readExpr source
  let (v, _) ← (Session.start (← Registry.ofDeclarations functions)).evaluate e
  return v

end SassData
