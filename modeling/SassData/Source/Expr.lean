import SassData.Value

/-!
# Expressions and statements

What a style sheet says, after its text is read. Parentheses leave no trace. A call keeps its
positional arguments, its keyword arguments and the one value whose items are spread.
-/

namespace SassData

set_option autoImplicit false

inductive BinaryOp
  | or | and | eq | ne | lt | le | gt | ge | add | sub | mul | div | mod
  deriving DecidableEq

namespace BinaryOp

def text : BinaryOp → String
  | or => "or"
  | and => "and"
  | eq => "=="
  | ne => "!="
  | lt => "<"
  | le => "<="
  | gt => ">"
  | ge => ">="
  | add => "+"
  | sub => "-"
  | mul => "*"
  | div => "/"
  | mod => "%"

/-- How tightly an operator binds; all operators group to the left. -/
def level : BinaryOp → Nat
  | or => 1
  | and => 2
  | eq | ne => 3
  | lt | le | gt | ge => 4
  | add | sub => 5
  | mul | div | mod => 6

end BinaryOp

inductive UnaryOp
  | minus | not
  deriving DecidableEq

inductive Expr
  | literal (value : Value)
  | variable (name : String)
  | binary (op : BinaryOp) (left right : Expr)
  | unary (op : UnaryOp) (operand : Expr)
  | list (items : List Expr) (separator : Separator) (bracketed : Bool)
  | map (pairs : List (Expr × Expr))
  | call (function : String) (arguments : List Expr) (keywords : List (String × Expr))
    (spread : Option Expr)

instance : Inhabited Expr := ⟨.literal .null⟩

inductive Flag
  | default | global
  deriving DecidableEq

inductive Statement
  | assign (name : String) (expr : Expr) (flags : List Flag)
  | rule (selector : String) (declarations : List (String × Expr))
  | debug (expr : Expr)
  | error (expr : Expr)

end SassData
