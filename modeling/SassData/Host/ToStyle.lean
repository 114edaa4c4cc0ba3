import SassData.Engine.Literal
import SassData.Future
import SassData.Host

/-!
# Style sheet values from host data

Scalars, texts, lists, dictionaries and records become values; what has no value becomes null. Texts
are put in marks, or taken for a literal when that is wanted and they are a number or a colour. Keys
are always in marks. Callables are null unless they are to be called, and then what they give is
converted. Data that holds futures is a plan for a future; a plan without futures is done at once.
-/

namespace SassData.Host

set_option autoImplicit false

/-- Whether callables are called, and with which arguments. -/
inductive CallPolicy
  | leave
  | call (arguments : List Host)

/-- The policy that an option stands for: a list or tuple holds arguments, and anything else tells
by its truth whether to call without any. -/
def CallPolicy.ofHost : Host → CallPolicy
  | list items => .call items
  | tuple items => .call items
  | measured n => .call (measuredItems n)
  | h => if h.isTruthy then .call [] else .leave

structure ToStyle where
  readLiterals : Bool
  callables : CallPolicy
  delimiter : String

def ToStyle.standard : ToStyle := ⟨false, .leave, "'"⟩

/-- The literal that a text is: only numbers and colours are taken as such. -/
def literal? (text : String) : Outcome (Option Value) := do
  match ← Literal.read text with
  | some (.number n) => return some (.number n)
  | some (.color c) => return some (.color c)
  | _ => return none

def ofText (options : ToStyle) (text : String) : Outcome Value := do
  let literal ← if options.readLiterals && !Text.isQuoted text then literal? text else pure none
  return literal.getD (.string (Text.quote text options.delimiter))

def ofTexts (options : ToStyle) (texts : List String) : Outcome Value := do
  return .list (← texts.mapM (ofText options)) .comma false

def ofMeasured (options : ToStyle) (n : Number) : Outcome Value := do
  let above ← ofTexts options n.above
  let below ← ofTexts options n.below
  return .list [.number (.ofMagnitude n.magnitude), above, below] .comma false

def keyName : Host → String
  | text s => s
  | bool b => if b then "true" else "false"
  | null => "null"
  | number m => m.styleText
  | h => h.plainText

def keyValue (options : ToStyle) (name : String) : Value :=
  .string (Text.quote name (if options.delimiter.isEmpty then "'" else options.delimiter))

def styleValue : Host → Value
  | value v => v
  | _ => .null

def planOf : Outcome Value → Plan Host
  | .ok v => .done (.value v)
  | .error failure => .failed failure

def listPlan (items : List (Plan Host)) : Plan Host :=
  .gather items fun values => .ok (.value (.list (values.map styleValue) .comma false))

def mapPlan (keys : List Value) (items : List (Plan Host)) : Plan Host :=
  .gather items fun values => .ok (.value (.map (keys.zip (values.map styleValue))))

mutual

/-- The plan for data, given what to do with what a call hands back. A future is converted in turn
once it has its result. -/
def planWith (options : ToStyle) (handed : Host → Plan Host) : Host → Plan Host
  | value v => .done (.value v)
  | null => .done (.value .null)
  | bool b => .done (.value (.bool b))
  | number m => .done (.value (.number (.ofMagnitude m)))
  | fraction num den =>
    planOf ((fun m => Value.number (.ofMagnitude m)) <$>
      Outcome.ofArithmetic (Number.Magnitude.quotient (.int num) (.int den)))
  | text s => planOf (ofText options s)
  | future place => .again place
  | dict entries =>
    mapPlan (entries.map fun (key, _) => keyValue options key.keyName)
      (planEntries options handed entries)
  | record fields =>
    mapPlan (fields.map fun (name, _) => keyValue options name) (planFields options handed fields)
  | list items => listPlan (planItems options handed items)
  | tuple items => listPlan (planItems options handed items)
  | callable c =>
    match options.callables with
    | .leave => .done (.value .null)
    | .call arguments => planCall options handed arguments c
  | measured n => planOf (ofMeasured options n)
  | separator _ | indexable _ | foreign => .done (.value .null)

/-- The plan for what a callable gives. A constant is part of the data; the others hand back what
they are given. -/
def planCall (options : ToStyle) (handed : Host → Plan Host) (arguments : List Host) :
    Callable Host → Plan Host
  | .constant result => planWith options handed result
  | c =>
    match c.call arguments with
    | .ok result => handed result
    | .error failure => .failed failure

def planItems (options : ToStyle) (handed : Host → Plan Host) : List Host → List (Plan Host)
  | [] => []
  | h :: rest => planWith options handed h :: planItems options handed rest

def planEntries (options : ToStyle) (handed : Host → Plan Host) :
    List (Host × Host) → List (Plan Host)
  | [] => []
  | (_, h) :: rest => planWith options handed h :: planEntries options handed rest

def planFields (options : ToStyle) (handed : Host → Plan Host) :
    List (String × Host) → List (Plan Host)
  | [] => []
  | (_, h) :: rest => planWith options handed h :: planFields options handed rest

end

/-- The plan for data with calls that hand back what they are given nested up to a depth. -/
def planTo (options : ToStyle) : Nat → Host → Plan Host
  | 0 => planWith options fun _ => .failed .endless
  | n + 1 => planWith options (planTo options n)

/-- Two kinds of callable hand back what they are given, always the same. Where one of a kind is met
again in what it has handed back, there is no end; so two calls are as many as an end allows. -/
def handings : Nat := 2

def stylePlan (options : ToStyle) (h : Host) : Plan Host := planTo options handings h

def toStyle (options : ToStyle) (h : Host) : Job Host := ⟨stylePlan options h, stylePlan options⟩

end SassData.Host
