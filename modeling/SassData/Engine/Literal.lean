import SassData.Engine.Session

/-!
# Texts that may be literals

A text is tried as the argument of a call in a style sheet of one statement, and the argument of
the first such call is what the text means. A text that does not compile there means nothing.
-/

namespace SassData.Literal

set_option autoImplicit false

def probe : Declarations :=
  [("___($value)", fun arguments => .ok (.value (arguments.headD .null)))]

def probeName : String := "---"

def sheetOf (text : String) : String := "$_: ___((" ++ text ++ "));"

def firstProbed? (trace : List Invocation) : Option Value :=
  (trace.reverse.find? fun i => i.function == probeName).bind fun i => i.arguments.head?

/-- The value that a text stands for, if it compiles. -/
def read (text : String) : Outcome (Option Value) :=
  match compile (sheetOf text) probe with
  | .ok compiled => .ok (firstProbed? compiled.trace)
  | .error failure => if failure.isCompileError then .ok none else .error failure

end SassData.Literal
