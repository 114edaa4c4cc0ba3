import SassData.Failure
import SassData.Number.Fixed
import SassData.Unit

/-!
# Numbers with units

A number is a magnitude with units. Sums, differences, remainders and comparisons need units that
agree up to order, or one side without any; products and quotients combine the units and cancel
them. The units are looked at before the magnitudes.
-/

namespace SassData

set_option autoImplicit false

structure Number where
  magnitude : Number.Magnitude
  above : List String
  below : List String
  deriving DecidableEq

namespace Number

def ofMagnitude (magnitude : Magnitude) : Number := ⟨magnitude, [], []⟩

def ofInt (n : Int) : Number := ofMagnitude (.int n)

def withUnit (magnitude : Magnitude) (unit : String) : Outcome Number :=
  match Unit.read? unit with
  | some (above, below) => .ok ⟨magnitude, above, below⟩
  | none => .error (.invalidUnit unit)

def hasUnits (a : Number) : Bool := !a.above.isEmpty || !a.below.isEmpty

def unitText (a : Number) : String := Unit.text a.above a.below

def css (a : Number) : String := a.magnitude.styleText ++ a.unitText

def sameUnits (a b : Number) : Bool :=
  Unit.sameTokens a.above b.above && Unit.sameTokens a.below b.below

/-- The operand whose units the result of an additive operation takes. -/
def agreeing (a b : Number) (op : String) : Outcome Number :=
  if !b.hasUnits || a.sameUnits b then .ok a
  else if !a.hasUnits then .ok b
  else .error (.incompatibleUnits a.unitText b.unitText op)

/-- An additive operation: units first, then magnitudes. -/
def additive (op : String) (f : Magnitude → Magnitude → Except ArithmeticFault Magnitude)
    (a b : Number) : Outcome Number := do
  let units ← agreeing a b op
  let magnitude ← Outcome.ofArithmetic (f a.magnitude b.magnitude)
  return { units with magnitude := magnitude }

def plus : Number → Number → Outcome Number := additive "+" Magnitude.add

def minus : Number → Number → Outcome Number := additive "-" Magnitude.sub

def modulo : Number → Number → Outcome Number := additive "%" Magnitude.mod

def times (a b : Number) : Outcome Number := do
  let (above, below) := Unit.cancel (a.above ++ b.above) (a.below ++ b.below)
  return ⟨← Outcome.ofArithmetic (a.magnitude.mul b.magnitude), above, below⟩

def dividedBy (a b : Number) : Outcome Number := do
  let (above, below) := Unit.cancel (a.above ++ b.below) (a.below ++ b.above)
  return ⟨← Outcome.ofArithmetic (a.magnitude.div b.magnitude), above, below⟩

/-- The difference of the magnitudes, whose sign tells the order. -/
def compare (a b : Number) : Outcome Magnitude := do
  let _ ← agreeing a b "<"
  Outcome.ofArithmetic (a.magnitude.sub b.magnitude)

def negated (a : Number) : Number := { a with magnitude := a.magnitude.neg }

def isInt (a : Number) : Outcome Bool := Outcome.ofArithmetic a.magnitude.isInt

/-- The integer that the number is up to the tolerance. -/
def assertInt (a : Number) (name : Option String) : Outcome Int := do
  if ← a.isInt then Outcome.ofArithmetic a.magnitude.round
  else throw (.expected name a.css "integer")

def assertUnitless (a : Number) (name : Option String) : Outcome Number :=
  if a.hasUnits then .error (.unexpectedUnits name a.css) else .ok a

end Number

end SassData
