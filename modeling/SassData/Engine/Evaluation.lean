import SassData.Engine.Function

/-!
# Evaluation

The value of an expression in a scope of functions and variables. Operands, arguments and entries
are evaluated from left to right, and the first failure counts. Calls of functions are noted in the
order in which they are made. A default is an expression of its own, evaluated where the call
stands.
-/

namespace SassData

set_option autoImplicit false

structure Invocation where
  function : String
  arguments : List Value

/-- A computation that may fail and that notes the calls it makes, the latest first. -/
abbrev Traced := StateT (List Invocation) Outcome

structure Scope where
  functions : Registry
  assigned : Named Value

namespace Operation

/-- An operator between two numbers; a comparison is decided by the sign of the difference. -/
def onNumbers (op : BinaryOp) (a b : Number) : Outcome Value :=
  let ordered (test : Number.Magnitude → Bool) : Outcome Value := do
    return .bool (test (← a.compare b))
  match op with
  | .add => .number <$> a.plus b
  | .sub => .number <$> a.minus b
  | .mul => .number <$> a.times b
  | .div => .number <$> a.dividedBy b
  | .mod => .number <$> a.modulo b
  | .lt => ordered fun d => d.lt 0
  | .le => ordered fun d => d.lt 0 || d.eq 0
  | .gt => ordered fun d => Number.Magnitude.lt 0 d
  | .ge => ordered fun d => Number.Magnitude.lt 0 d || d.eq 0
  | .or | .and | .eq | .ne => .error (.undefinedOperation a.css op.text b.css)

/-- An operator between values of which one is no number: a string takes part in sums, and minus
and slash put the texts side by side. -/
def onTexts (op : BinaryOp) (a b : Value) : Outcome Value :=
  match op, a, b with
  | .add, .string s, b => .ok (Value.concat s b)
  | .add, a, .string t =>
    let joined := a.css ++ Text.unquote t
    .ok (.string (match Text.mark? t with
      | some mark => Text.quote joined (String.singleton mark)
      | none => joined))
  | .sub, a, b => .ok (.string (a.css ++ "-" ++ b.css))
  | .div, a, b => .ok (.string (a.css ++ "/" ++ b.css))
  | op, a, b => .error (.undefinedOperation a.css op.text b.css)

def apply (op : BinaryOp) (a b : Value) : Outcome Value :=
  match op, a, b with
  | .eq, a, b => .bool <$> a.equals b
  | .ne, a, b => do return .bool (!(← a.equals b))
  | op, .number m, .number n => onNumbers op m n
  | op, a, b => onTexts op a b

def applyUnary (op : UnaryOp) (a : Value) : Value :=
  match op, a with
  | .not, a => .bool (!a.isTruthy)
  | .minus, .number n => .number n.negated
  | .minus, a => .string ("-" ++ a.css)

end Operation

namespace Evaluation

def hasKey (key : Value) : List (Value × Value) → Outcome Bool
  | [] => .ok false
  | (k, _) :: rest => do if ← key.equals k then return true else hasKey key rest

/-- The arguments of a call with those of a spread value: the pairs of a map are keyword arguments,
the items of anything else are positional. -/
def spread (positional : List Value) (keywords : Named Value) :
    Option Value → List Value × Named Value
  | none => (positional, keywords)
  | some (.map pairs) =>
    (positional, pairs.foldl
      (fun names (key, v) => Named.put (Text.canonicalName key.plainText) v names) keywords)
  | some v => (positional ++ v.items, keywords)

/-- Calls a function, one value for each parameter, and waits for what it hands back. What it fails
with is wrapped, except failures of style sheets. -/
def invoke (f : Function) (arguments : List Value) : Traced Value := do
  modify (⟨f.signature.name, arguments⟩ :: ·)
  match f.body arguments >>= Reply.awaited with
  | .ok (.value v) => return v
  | .ok h => throw (.notStyleValue f.signature.name h.typeName)
  | .error failure =>
    throw (if failure.isCompileError then failure else .inCall f.signature.name failure)

def fillSlots (default : Expr → Traced Value) : List (Option Value) → List Parameter →
    Traced (List Value)
  | some v :: slots, _ :: parameters => do return v :: (← fillSlots default slots parameters)
  | none :: slots, p :: parameters => do
    let v ← match p.default with
      | some e => default e
      | none => throw (.missingArgument p.name "")
    return v :: (← fillSlots default slots parameters)
  | _, _ => return []

/-- Calls the function of a name. A name without a function is plain CSS and shows its call. -/
def call (scope : Scope) (default : Expr → Traced Value) (name : String) (positional : List Value)
    (keywords : Named Value) : Traced Value := do
  match scope.functions.find? name with
  | none =>
    if keywords.isEmpty then
      return .string (name ++ "(" ++ ", ".intercalate (positional.map Value.css) ++ ")")
    else throw (.keywordsInPlainCall name)
  | some f =>
    let binding ← f.signature.bind positional keywords
    let fixed := f.signature.parameters.filter (!·.isRest)
    let values ← fillSlots default binding.slots fixed
    let hasRest := f.signature.parameters.any Parameter.isRest
    invoke f (if hasRest then values ++ [.list binding.rest .comma false] else values)

mutual

/-- The value of an expression, defaults of calls in it left to another evaluation. -/
def evaluateWith (scope : Scope) (default : Expr → Traced Value) : Expr → Traced Value
  | .literal v => return v
  | .variable name =>
    match scope.assigned.get? name with
    | some v => return v
    | none => throw (.undefinedVariable name)
  | .list items separator bracketed => do
    return .list (← evaluateItems scope default items) separator bracketed
  | .map pairs => do return .map (← evaluatePairs scope default [] pairs)
  | .unary op e => do return Operation.applyUnary op (← evaluateWith scope default e)
  | .binary .and left right => do
    let a ← evaluateWith scope default left
    if a.isTruthy then evaluateWith scope default right else return a
  | .binary .or left right => do
    let a ← evaluateWith scope default left
    if a.isTruthy then return a else evaluateWith scope default right
  | .binary op left right => do
    let a ← evaluateWith scope default left
    let b ← evaluateWith scope default right
    Operation.apply op a b
  | .call name arguments keywords none => do
    let positional ← evaluateItems scope default arguments
    let keywords ← evaluateKeywords scope default [] keywords
    call scope default name positional keywords
  | .call name arguments keywords (some rest) => do
    let positional ← evaluateItems scope default arguments
    let keywords ← evaluateKeywords scope default [] keywords
    let (positional, keywords) :=
      spread positional keywords (some (← evaluateWith scope default rest))
    call scope default name positional keywords

def evaluateItems (scope : Scope) (default : Expr → Traced Value) :
    List Expr → Traced (List Value)
  | [] => return []
  | e :: rest => do
    let v ← evaluateWith scope default e
    return v :: (← evaluateItems scope default rest)

/-- The pairs of a map after those given. A key is compared with all before it, and its value is
evaluated only if it is new. -/
def evaluatePairs (scope : Scope) (default : Expr → Traced Value) (before : List (Value × Value)) :
    List (Expr × Expr) → Traced (List (Value × Value))
  | [] => return before
  | (key, value) :: rest => do
    let k ← evaluateWith scope default key
    if ← hasKey k before then throw (.duplicateKey k.css)
    let v ← evaluateWith scope default value
    evaluatePairs scope default (before ++ [(k, v)]) rest

def evaluateKeywords (scope : Scope) (default : Expr → Traced Value) (before : Named Value) :
    List (String × Expr) → Traced (Named Value)
  | [] => return before
  | (name, e) :: rest => do
    let v ← evaluateWith scope default e
    evaluateKeywords scope default (Named.put name v before) rest

end

/-- Evaluation with defaults of calls nested up to a depth. -/
def evaluateTo (scope : Scope) : Nat → Expr → Traced Value
  | 0 => evaluateWith scope fun _ => throw .endless
  | n + 1 => evaluateWith scope (evaluateTo scope n)

/-- How many defaults there are. Where one needs itself again there is no end, so no more than that
many nest. -/
def defaultCount (functions : Registry) : Nat :=
  functions.foldr (fun (_, f) n => f.signature.parameters.countP (·.default.isSome) + n) 0

def evaluate (scope : Scope) (e : Expr) : Traced Value :=
  evaluateTo scope (defaultCount scope.functions) e

end Evaluation

end SassData
