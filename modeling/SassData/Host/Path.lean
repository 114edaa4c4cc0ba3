import SassData.Host.Attribute

/-!
# Paths through host data

A path is a list of steps. A dictionary is asked for the step as a key and then for its text; a list
or tuple takes an integer, also one in floating-point form, counted from the end if negative;
anything else has attributes, and a step is the name of one.
-/

namespace SassData.Host

set_option autoImplicit false

open Number (Magnitude Binary64)

def place? : Host → Option Int
  | bool b => some (if b then 1 else 0)
  | number (.int n) => some n
  | number (.float x) => if x.isWhole then x.floor? else none
  | _ => none

/-- The item at a place, counted from the end if the place is negative. -/
def itemAt? (items : List Host) (place : Int) : Option Host :=
  let place := if place < 0 then place + items.length else place
  if place < 0 then none else items[place.toNat]?

def stepInSequence (items : List Host) (key : Host) : Except StepFault Host :=
  match key.place? with
  | none => .error .notAnIndex
  | some place =>
    match itemAt? items place with
    | some item => .ok item
    | none => .error .indexOutOfRange

def stepInDict (entries : List (Host × Host)) (key : Host) : Except StepFault Host :=
  if !key.isHashable then .error .unhashableKey
  else match itemUnder? entries key with
    | some item => .ok item
    | none =>
      match itemUnder? entries (.text key.plainText) with
      | some item => .ok item
      | none => .error .missingKey

def stepToAttribute (h : Host) (key : Host) : Outcome (Except StepFault Host) := do
  match ← h.attribute? key.plainText with
  | some item => return .ok item
  | none => return .error .missingAttribute

/-- One step into data. A step that cannot be taken is a fault; besides, working out an attribute
may fail. -/
def step (h : Host) (key : Host) : Outcome (Except StepFault Host) :=
  match h with
  | dict entries => .ok (stepInDict entries key)
  | list items => .ok (stepInSequence items key)
  | tuple items => .ok (stepInSequence items key)
  | measured n => .ok (stepInSequence (measuredItems n) key)
  | h => stepToAttribute h key

/-- Follows the rest of a path; faults show the whole of it. -/
def followFrom (path : List String) : Host → List Host → Outcome Host
  | h, [] => .ok h
  | h, key :: rest => do
    match ← h.step key with
    | .ok item => followFrom path item rest
    | .error fault => throw (.unresolvedPath path key.display (some fault))

def follow (h : Host) (path : List Host) : Outcome Host :=
  followFrom (path.map display) h path

end SassData.Host
