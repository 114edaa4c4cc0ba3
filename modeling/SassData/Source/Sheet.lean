import SassData.Source.Reading

/-!
# Reading style sheets

A style sheet is read token by token as well. The place says which part of which statement is under
way; the expressions in it are read by their own stack of frames.
-/

namespace SassData.Source

set_option autoImplicit false

structure OpenRule where
  selector : String
  before : List (String × Expr)

inductive Owner
  | assignment (name : String)
  | declaration (rule : OpenRule) (property : String)
  | debug
  | error

inductive Place
  | between
  | named (owner : Owner)
  | inside (owner : Owner) (reading : Reading)
  | flagged (name : String) (expr : Expr) (flags : List Flag)
  | selected (rule : OpenRule)
  | block (rule : OpenRule)

structure SheetReading where
  before : List Statement
  place : Place
  fault : Option Failure

namespace SheetReading

def start : SheetReading := ⟨[], .between, none⟩

/-- A selector with its runs of blanks made single spaces. -/
def selectorText (text : String) : String :=
  " ".intercalate ((Text.words text.toList).map String.ofList)

def addFlag (flags : List Flag) (flag : Flag) : List Flag :=
  if flag ∈ flags then flags else flags ++ [flag]

/-- What follows when an expression has ended at a semicolon. -/
def conclude (s : SheetReading) (owner : Owner) (expr : Expr) : SheetReading :=
  match owner with
  | .assignment name => { s with before := .assign name expr [] :: s.before, place := .between }
  | .declaration rule property =>
    { s with place := .block { rule with before := (property, expr) :: rule.before } }
  | .debug => { s with before := .debug expr :: s.before, place := .between }
  | .error => { s with before := .error expr :: s.before, place := .between }

/-- Takes a token inside an expression. A semicolon ends the expression, and so does a flag after
the value of a variable. -/
def inside? (s : SheetReading) (owner : Owner) (reading : Reading) (token : Token) :
    Option SheetReading :=
  match token, owner with
  | .symbol .semicolon, owner =>
    reading.finish?.map fun e => { s with fault := s.fault.or reading.fault }.conclude owner e
  | .flag flag, .assignment name =>
    reading.finish?.map fun e =>
      { s with fault := s.fault.or reading.fault, place := .flagged name e [flag] }
  | token, owner => (reading.push? token).map fun r => { s with place := .inside owner r }

def push? (s : SheetReading) (token : Token) : Option SheetReading :=
  match s.place, token with
  | .between, .variable name =>
    some { s with place := .named (.assignment (Text.canonicalName name)) }
  | .between, .selector text => some { s with place := .selected ⟨selectorText text, []⟩ }
  | .between, .debug => some { s with place := .inside .debug .start }
  | .between, .error => some { s with place := .inside .error .start }
  | .named owner, .symbol .colon => some { s with place := .inside owner .start }
  | .inside owner reading, token => inside? s owner reading token
  | .flagged name e flags, .flag flag =>
    some { s with place := .flagged name e (addFlag flags flag) }
  | .flagged name e flags, .symbol .semicolon =>
    some { s with before := .assign name e flags :: s.before, place := .between }
  | .selected rule, .symbol .openBrace => some { s with place := .block rule }
  | .block rule, .word property => some { s with place := .named (.declaration rule property) }
  | .block rule, .symbol .closeBrace =>
    some { s with before := .rule rule.selector rule.before.reverse :: s.before, place := .between }
  | _, _ => none

/-- The statements read, if the style sheet may end here. -/
def finish? (s : SheetReading) : Option (List Statement) :=
  match s.place with
  | .between => some s.before.reverse
  | _ => none

end SheetReading

def readSheet (source : String) : Outcome (List Statement) :=
  readWhole SheetReading.push? (fun s => s.finish?.map fun statements => (statements, s.fault))
    .start (scan .statement source)

end SassData.Source
