import SassData.Host.FromStyle
import SassData.Host.Path
import SassData.Host.ToStyle

/-!
# Requiring data from a style sheet

The function by which a style sheet asks for data: it takes a name, a path into the data, and how to
convert what is there. A callable that is loaded is called first if callables are to be called at
all. What comes from a future is a future again.
-/

namespace SassData.Module

set_option autoImplicit false

abbrev Loader := String → Outcome Host

def declaration : String :=
  "require($module, $properties: (), $parse-unquoted-strings: false, "
    ++ "$resolve-functions: false, $quotes: \"'\")"

def plainHost : Host.FromStyle := ⟨false, false, false⟩

/-- A value as a path: its items, none for null. -/
def pathOf (v : Value) : List Host :=
  if v.isNull then [] else Host.ofValues plainHost v.items

def policyOf : Value → Host.CallPolicy
  | .list (v :: rest) _ _ => .call (Host.ofValues plainHost (v :: rest))
  | v => if v.isTruthy then .call [] else .leave

def delimiterOf (v : Value) : Outcome String :=
  match v with
  | .null => .ok ""
  | v => do
    let mark := Text.unquote (← v.assertString (some "quotes"))
    return if mark == "\"" then "\"" else "'"

/-- The part of the data that a path leads to, as a value. -/
def convert (path : List Host) (options : Host.ToStyle) (data : Host) : Plan Host :=
  match data.follow path with
  | .ok part => Host.stylePlan options part
  | .error failure => .failed failure

/-- What a callable gives without arguments, if callables are called. -/
def unfold (policy : Host.CallPolicy) (data : Host) : Outcome Host :=
  match policy, data with
  | .call _, .callable c => c.call []
  | _, data => .ok data

def job (load : Loader) (name properties parse resolve quotes : Value) : Outcome (Job Host) := do
  let name := Text.unquote (← name.assertString (some "module"))
  let path := pathOf properties
  let policy := policyOf resolve
  let options : Host.ToStyle := ⟨parse.isTruthy, policy, ← delimiterOf quotes⟩
  let plan := match ← unfold policy (← load name) with
    | .future place => .await place (convert path options)
    | data => convert path options data
  return ⟨plan, Host.stylePlan options⟩

def jobOfArguments (load : Loader) (arguments : List Value) : Outcome (Job Host) :=
  job load (arguments.getD 0 .null) (arguments.getD 1 .null) (arguments.getD 2 .null)
    (arguments.getD 3 .null) (arguments.getD 4 .null)

def reply (store : Future.Store Host) : Host → Reply
  | .future place => .later (store.state place)
  | h => .now h

def replyOfJob (store : Future.Store Host) (j : Job Host) : Outcome Reply :=
  match store.launch j with
  | (_, .now h) => .ok (.now h)
  | (_, .failed failure) => .error failure
  | (store, .future place) => .ok (reply store (.future place))

def require (store : Future.Store Host) (load : Loader) : String × (List Value → Outcome Reply) :=
  (declaration, fun arguments => do replyOfJob store (← jobOfArguments load arguments))

end SassData.Module
