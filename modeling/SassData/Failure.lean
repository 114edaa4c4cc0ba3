import SassData.Number.Magnitude
import SassData.Text.Display

/-!
# Failures

Everything that can go wrong, by cause. A failure says what happened with the parts its message
shows; the wording is in `Failure.message` alone. Failures of the first group are those of a style
sheet: they end a compilation in an orderly way. The others come from arithmetic, from host data and
from what the host was asked to do; inside a function call they are wrapped into the first group,
elsewhere they are passed on.
-/

namespace SassData

set_option autoImplicit false

inductive StepFault
  | missingKey
  | unhashableKey
  | indexOutOfRange
  | notAnIndex
  | missingAttribute
  deriving DecidableEq

inductive Failure
  /- Style sheets. -/
  | malformed (line column : Nat)
  | unreadable (cause : Failure)
  | reported (text : String)
  | undefinedVariable (name : String)
  | duplicateKey (css : String)
  | notCss (css : String)
  | keywordsInPlainCall (function : String)
  | inCall (function : String) (cause : Failure)
  | notStyleValue (function type : String)
  | passedTwice (parameter : String)
  | missingArgument (parameter function : String)
  | tooManyArguments (allowed given : Nat) (function : String)
  | unknownArguments (names : List String) (function : String)
  | invalidSignature (signature : String)
  | invalidParameter (parameter signature : String)
  | variadicNotLast (signature : String)
  /- Values of the wrong type. -/
  | mismatch (text : String)
  | expected (name : Option String) (css kind : String)
  | unexpectedUnits (name : Option String) (css : String)
  | incompatibleUnits (left right op : String)
  | undefinedOperation (left op right : String)
  | notPercentage (name css : String)
  | notAngle (css : String)
  | invalidIndex (index : Int) (size : Nat)
  /- Arithmetic and literals. -/
  | arithmetic (fault : Number.ArithmeticFault)
  | invalidUnit (unit : String)
  | invalidHex (text : String)
  | misplacedArgument (function : String)
  /- Host data. -/
  | unresolvedPath (path : List String) (step : String) (cause : Option StepFault)
  | moduleNotFound (name : String)
  | invalidJson
  | invalidToml
  | cancelled
  | alreadySettled
  | host (kind text : String)
  /- A computation that has no end was cut off. -/
  | endless

namespace Failure

def label : Option String → String
  | none => ""
  | some name => if name.isEmpty then "" else "$" ++ name ++ ": "

def article (kind : String) : String :=
  if kind.toList.head?.any fun c => c ∈ ['a', 'e', 'i', 'o', 'u'] then "an" else "a"

def message : Failure → String
  | malformed .. => "the source is malformed"
  | unreadable cause => cause.message
  | reported text => text
  | undefinedVariable name => "Undefined variable: $" ++ name ++ "."
  | duplicateKey css => "Duplicate key " ++ css ++ "."
  | notCss css => css ++ " isn't a valid CSS value."
  | keywordsInPlainCall function =>
    "Plain CSS function " ++ function ++ "() doesn't support keyword arguments."
  | inCall function cause => "Error in " ++ function ++ "(): " ++ cause.message
  | notStyleValue function type =>
    function ++ "() must return a stylesheet value, got " ++ type ++ "."
  | passedTwice parameter =>
    "Argument $" ++ parameter ++ " was passed both by position and by name."
  | missingArgument parameter function =>
    "Missing argument $" ++ parameter ++ " in " ++ function ++ "()."
  | tooManyArguments allowed given function =>
    "Only " ++ toString allowed ++ " arguments allowed in " ++ function ++ "(), but "
      ++ toString given ++ " were passed."
  | unknownArguments names function =>
    "No argument named " ++ ", ".intercalate (names.map ("$" ++ ·)) ++ " in " ++ function ++ "()."
  | invalidSignature signature => "Invalid function signature: " ++ Text.display signature
  | invalidParameter parameter signature =>
    "Invalid parameter " ++ Text.display parameter ++ " in " ++ Text.display signature
  | variadicNotLast signature =>
    "Only the last parameter may be variadic in " ++ Text.display signature
  | mismatch text => text
  | expected name css kind => label name ++ css ++ " is not " ++ article kind ++ " " ++ kind ++ "."
  | unexpectedUnits name css => label name ++ "Expected " ++ css ++ " to have no units."
  | incompatibleUnits left right op =>
    "Incompatible units " ++ left ++ " and " ++ right ++ " for " ++ Text.display op ++ "."
  | undefinedOperation left op right =>
    "Undefined operation \"" ++ left ++ " " ++ op ++ " " ++ right ++ "\"."
  | notPercentage name css => "$" ++ name ++ ": Expected " ++ css ++ " to be a percentage."
  | notAngle css => "$hue: Expected " ++ css ++ " to be an angle in degrees."
  | invalidIndex index size =>
    "$n: Invalid index " ++ toString index ++ " for a list with " ++ toString size ++ " elements."
  | arithmetic fault => fault.message
  | invalidUnit unit => "Invalid unit: " ++ Text.display unit
  | invalidHex text => "Invalid hex color: " ++ Text.display text
  | misplacedArgument function =>
    "Positional arguments must come before keyword arguments in " ++ function ++ "()."
  | unresolvedPath path step _ =>
    "Invalid property path [" ++ ", ".intercalate path ++ "]: cannot resolve " ++ step
  | moduleNotFound name => "Couldn't find module: " ++ name
  | invalidJson => "the JSON text is malformed"
  | invalidToml => "the TOML text is malformed"
  | cancelled => ""
  | alreadySettled => "the future is settled"
  | host _ text => text
  | endless => "the computation has no end"

/-- Whether the failure ends a compilation in an orderly way. -/
def isCompileError : Failure → Bool
  | malformed .. | unreadable _ | reported _ | undefinedVariable _ | duplicateKey _ | notCss _
  | keywordsInPlainCall _ | inCall .. | notStyleValue .. | passedTwice _ | missingArgument ..
  | tooManyArguments .. | unknownArguments .. | invalidSignature _ | invalidParameter ..
  | variadicNotLast _ => true
  | mismatch _ | expected .. | unexpectedUnits .. | incompatibleUnits .. | undefinedOperation ..
  | notPercentage .. | notAngle _ | invalidIndex .. => true
  | _ => false

/-- Whether the failure belongs to the library: those of style sheets, of paths and of modules. -/
def isOwn : Failure → Bool
  | unresolvedPath .. | moduleNotFound _ => true
  | f => f.isCompileError

end Failure

abbrev Outcome := Except Failure

def Outcome.ofArithmetic {α : Type} : Except Number.ArithmeticFault α → Outcome α
  | .ok a => .ok a
  | .error fault => .error (.arithmetic fault)

end SassData
