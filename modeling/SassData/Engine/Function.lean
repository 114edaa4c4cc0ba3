import SassData.Engine.Signature
import SassData.Future
import SassData.Host

/-!
# Functions

What a call of a function does with its arguments before the function sees them. Positional
arguments fill parameters from the left, keyword arguments fill the others by name, and a parameter
that nothing fills needs a default; what is left over goes to the parameter for the rest or is an
error. A function hands back host data, of which only style sheet values are of use, or a future of
it.
-/

namespace SassData

set_option autoImplicit false

/-- What a function hands back: data, or a future of data in the state it is in. -/
inductive Reply
  | now (h : Host)
  | later (state : Future.State Host)

namespace Reply

def value (v : Value) : Reply := .now (.value v)

/-- The data of a reply, waited for if need be. For a future that is pending there is no end of
waiting. -/
def awaited : Reply → Outcome Host
  | now h => .ok h
  | later state => state.result?.getD (.error .endless)

end Reply

structure Function where
  signature : Signature
  body : List Value → Outcome Reply

structure Binding where
  slots : List (Option Value)
  rest : List Value

namespace Signature

/-- Fills the parameters from the given one on; `slots` are those filled, in reverse. -/
def bindFrom (function : String) : List Parameter → List Value → Named Value →
    List (Option Value) → List Value → Outcome Binding
  | [], [], [], slots, rest => .ok ⟨slots.reverse, rest⟩
  | [], [], keywords, _, _ => .error (.unknownArguments (keywords.map Prod.fst) function)
  | [], positional, _, slots, _ =>
    .error (.tooManyArguments slots.length (slots.length + positional.length) function)
  | p :: parameters, positional, keywords, slots, rest =>
    if p.isRest then bindFrom function parameters [] keywords slots (rest ++ positional)
    else match positional, keywords.get? p.name with
      | _ :: _, some _ => .error (.passedTwice p.name)
      | v :: positional, none =>
        bindFrom function parameters positional keywords (some v :: slots) rest
      | [], some v =>
        bindFrom function parameters [] (keywords.remove p.name) (some v :: slots) rest
      | [], none =>
        if p.default.isSome then bindFrom function parameters [] keywords (none :: slots) rest
        else .error (.missingArgument p.name function)

def bind (s : Signature) (positional : List Value) (keywords : Named Value) : Outcome Binding :=
  bindFrom s.name s.parameters positional keywords [] []

end Signature

abbrev Registry := Named Function

namespace Registry

def register (r : Registry) (f : Function) : Registry := Named.put f.signature.name f r

def find? (r : Registry) (name : String) : Option Function := r.get? (Text.canonicalName name)

def contains (r : Registry) (name : String) : Bool := (r.find? name).isSome

/-- All functions of both; where both have one of a name, the other's counts. -/
def merge (r other : Registry) : Registry :=
  other.foldl (fun merged (name, f) => Named.put name f merged) r

def ofDeclarations (declarations : List (String × (List Value → Outcome Reply))) :
    Outcome Registry :=
  declarations.foldlM (fun r (text, body) => do
    return r.register ⟨← Signature.read text, body⟩) []

end Registry

end SassData
