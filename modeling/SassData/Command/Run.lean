import SassData.Command.Arguments
import SassData.Command.Output
import SassData.Module.Load
import SassData.Module.Require

/-!
# The commands

`compile` writes the CSS of a style sheet, `vars` writes data as the declaration of a variable, and
`eval` writes the value of an expression as JSON. Style sheets and expressions can require data.
Failures of the library end a command with its message; others pass through.
-/

namespace SassData.Command

set_option autoImplicit false

/-- What a command leaves: its exit code, what it has written, and the failure it did not handle. -/
structure Report where
  code : Nat
  output : String
  errors : String
  failure : Option Failure

def succeed (output errors : String) : Report :=
  match unwritable? (plain output) with
  | none => ⟨0, plain output, messageText errors, none⟩
  | some failure => ⟨1, "", messageText errors, some failure⟩

def fail (errors : String) : Report := ⟨1, "", messageText errors, none⟩

def crash (failure : Failure) : Report := ⟨1, "", "", some failure⟩

def usage : String :=
  "Usage: [--version] [-v] compile STYLESHEET | vars MODULE | eval EXPRESSION\n"

def misuse : Report := ⟨2, "", usage, none⟩

def version : String := "sasscast, version 0.1.0\n"

def failureText : Failure → String
  | .malformed .. => "<syntax>"
  | failure => failure.message

def declarations (files : Files) : Declarations := [Module.require .empty (Module.load files)]

/-! ## compile -/

def position : Failure → String
  | .malformed line column =>
    " (line " ++ toString line ++ ", column " ++ toString column ++ ")"
  | _ => ""

def compileText (files : Files) (source : String) (debug : Bool) : Report :=
  match compile source (declarations files) with
  | .ok compiled =>
    let messages := compiled.debug.map fun m => "DEBUG: " ++ m ++ "\n"
    succeed compiled.css (if debug then String.join messages else "")
  | .error failure =>
    if failure.isCompileError then
      fail ("Compile error" ++ position failure ++ ": " ++ failureText failure ++ "\n")
    else crash failure

/-- Whether the last option that sets the messages on or off lets them be written. -/
def wantsDebug (a : Arguments) : Bool :=
  match (a.options.map Prod.fst).reverse.find? fun n => n == "--debug" || n == "--no-debug" with
  | some name => name == "--debug"
  | none => true

def runCompile (files : Files) (arguments : List String) : Report :=
  let options : Options := ⟨["--debug", "--no-debug", "--help"], []⟩
  match options.sort? arguments with
  | none => misuse
  | some a =>
    if a.has "--help" then succeed usage ""
    else match a.operands with
    | [path] =>
      match files.find? path with
      | some (_, text) => compileText files (Files.lines text) (wantsDebug a)
      | none => misuse
    | _ => misuse

/-! ## vars -/

def delimiter? (name : String) : Option String :=
  [("single", "'"), ("double", "\""), ("none", "")].lookup name

def loadValue (files : Files) (name : String) (options : Host.ToStyle) : Outcome Value := do
  let data ← Module.load files name
  let data ← Module.unfold options.callables data
  return (← (← Module.replyOfJob .empty (Host.toStyle options data)).awaited).styleValue

def runVars (files : Files) (arguments : List String) : Report :=
  let options : Options :=
    ⟨["--parse-unquoted-strings", "--resolve-functions", "--help"], ["--name", "--quotes"]⟩
  match options.sort? arguments with
  | none => misuse
  | some a =>
    if a.has "--help" then succeed usage ""
    else match a.operands, delimiter? ((a.last? "--quotes").getD "single") with
    | [path], some delimiter =>
      let policy : Host.CallPolicy := if a.has "--resolve-functions" then .call [] else .leave
      match loadValue files path ⟨a.has "--parse-unquoted-strings", policy, delimiter⟩ with
      | .ok v => succeed ("$" ++ (a.last? "--name").getD "data" ++ ": " ++ v.css ++ ";\n") ""
      | .error failure =>
        if failure.isOwn then fail ("Error: " ++ failureText failure ++ "\n") else crash failure
    | _, _ => misuse

/-! ## eval -/

def evalText (files : Files) (source : String) (options : Host.FromStyle) : Report :=
  match evaluateSource source (declarations files) with
  | .ok v =>
    match Json.write? (Host.ofValue options v) with
    | some text => succeed (text ++ "\n") ""
    | none => crash (.host "TypeError" "the value has no JSON text")
  | .error failure =>
    if failure.isCompileError then fail ("Compile error: " ++ failureText failure ++ "\n")
    else crash failure

def runEval (files : Files) (arguments : List String) : Report :=
  let options : Options :=
    ⟨["--preserve-units", "--rgb-colors", "--preserve-quotes", "--help"], []⟩
  match options.sort? arguments with
  | none => misuse
  | some a =>
    if a.has "--help" then succeed usage ""
    else match a.operands with
    | [source] =>
      evalText files source
        ⟨a.has "--preserve-units", a.has "--rgb-colors", a.has "--preserve-quotes"⟩
    | _ => misuse

/-! ## The command line -/

def isVerbose (argument : String) : Bool :=
  argument == "--verbose" || match argument.toList with
    | '-' :: c :: rest => (c :: rest).all (· == 'v')
    | _ => false

def runCommand (files : Files) : List String → Report
  | "compile" :: rest => runCompile files rest
  | "vars" :: rest => runVars files rest
  | "eval" :: rest => runEval files rest
  | _ => misuse

/-- Runs the command that the arguments name, options before it included. The first of the options
that print and end does so, if all options are known. -/
def runFrom (files : Files) (printed : Option String) : List String → Report
  | [] => match printed with
    | some text => succeed text ""
    | none => misuse
  | argument :: rest =>
    if argument == "--version" then runFrom files (printed.or (some version)) rest
    else if argument == "--help" then runFrom files (printed.or (some usage)) rest
    else if isVerbose argument then runFrom files printed rest
    else if isOption argument && argument != "--" then misuse
    else match printed with
      | some text => succeed text ""
      | none => runCommand files (if argument == "--" then rest else argument :: rest)

def run (files : Files) (arguments : List String) : Report := runFrom files none arguments

end SassData.Command
