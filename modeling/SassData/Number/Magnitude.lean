import SassData.Number.Decimal

/-!
# Magnitudes

A magnitude is an integer of any size or a floating-point number, and the two stay apart: sums,
differences and products of integers are integers, all else goes through floating point, and
comparisons between the two kinds are exact. What can fail is collected in `ArithmeticFault`:
an integer beyond the range of floating point, a number that is no integer where one is needed,
and the remainder of an infinity.
-/

namespace SassData.Number

set_option autoImplicit false

inductive ArithmeticFault
  | integerTooLarge
  | quotientTooLarge
  | infinityToInteger
  | nanToInteger
  | outsideDomain
  deriving DecidableEq

def ArithmeticFault.message : ArithmeticFault → String
  | .integerTooLarge => "int too large to convert to float"
  | .quotientTooLarge => "integer division result too large for a float"
  | .infinityToInteger => "cannot convert float infinity to integer"
  | .nanToInteger => "cannot convert float NaN to integer"
  | .outsideDomain => "math domain error"

inductive Magnitude
  | int (n : Int)
  | float (x : Binary64)
  deriving DecidableEq

namespace Magnitude

instance {n : Nat} : OfNat Magnitude n := ⟨.int n⟩

def toFloat : Magnitude → Except ArithmeticFault Binary64
  | .int n => if (Binary64.ofInt n).isFinite then .ok (.ofInt n) else .error .integerTooLarge
  | .float x => .ok x

def inFloat (f : Binary64 → Binary64 → Binary64) (a b : Magnitude) :
    Except ArithmeticFault Magnitude := do
  let x ← a.toFloat
  let y ← b.toFloat
  return .float (f x y)

def add : Magnitude → Magnitude → Except ArithmeticFault Magnitude
  | .int m, .int n => .ok (.int (m + n))
  | a, b => inFloat (· + ·) a b

def sub : Magnitude → Magnitude → Except ArithmeticFault Magnitude
  | .int m, .int n => .ok (.int (m - n))
  | a, b => inFloat (· - ·) a b

def mul : Magnitude → Magnitude → Except ArithmeticFault Magnitude
  | .int m, .int n => .ok (.int (m * n))
  | a, b => inFloat (· * ·) a b

def neg : Magnitude → Magnitude
  | .int n => .int (-n)
  | .float x => .float (-x)

def abs : Magnitude → Magnitude
  | .int n => .int n.natAbs
  | .float x => .float x.abs

def isZero : Magnitude → Bool
  | .int n => n == 0
  | .float x => x.isZero

def quotient : Magnitude → Magnitude → Except ArithmeticFault Magnitude
  | .int m, .int n =>
    let q := Binary64.ofQuotient m n
    if q.isFinite then .ok (.float q) else .error .quotientTooLarge
  | a, b => inFloat (· / ·) a b

/-- What zero by zero gives, and a remainder by zero. -/
def undivided : Magnitude := .float (.nan false .undivided)

/-- Division by zero gives an infinity with the sign of the dividend, which is looked at in floating
point, or no number for zero. -/
def div (a b : Magnitude) : Except ArithmeticFault Magnitude :=
  if b.isZero then
    if a.isZero then .ok undivided
    else do
      let x ← a.toFloat
      return .float (.infinity x.isNegative)
  else quotient a b

/-- The remainder with the sign of the divisor, in floating point: the one of the quotient cut off
towards zero, moved by the divisor where the signs differ. A remainder of zero keeps the sign of
the dividend. -/
def mod (a b : Magnitude) : Except ArithmeticFault Magnitude := do
  if b.isZero then return undivided
  let x ← a.toFloat
  let y ← b.toFloat
  match x.remainder? y with
  | none => throw .outsideDomain
  | some r =>
    if !r.isZero && ((r < 0 : Bool) != (y < 0 : Bool)) then return .float (r + y)
    else return .float r

def lt : Magnitude → Magnitude → Bool
  | .int m, .int n => m < n
  | .float x, .float y => x < y
  | .int m, .float y =>
    match y with
    | .nan .. => false
    | .infinity s => !s
    | .finite .. => m * unitsInOne < y.signedUnits
  | .float x, .int n =>
    match x with
    | .nan .. => false
    | .infinity s => s
    | .finite .. => x.signedUnits < n * unitsInOne

/-- Numeric equality between magnitudes of either kind, exact. -/
def eq : Magnitude → Magnitude → Bool
  | .int m, .int n => m == n
  | .float x, .float y => x.eq y
  | .int m, .float y => y.isFinite && m * unitsInOne == y.signedUnits
  | .float x, .int n => x.isFinite && x.signedUnits == n * unitsInOne

/-- Numeric equality, or one thing that is no number on both sides. -/
def same : Magnitude → Magnitude → Bool
  | .float x, .float y => x.eq y || x.sameNan y
  | a, b => a.eq b

/-- The magnitude brought between two bounds; what is not a number stays. -/
def clamp (a low high : Magnitude) : Magnitude :=
  let raised := if a.lt low then low else a
  if high.lt raised then high else raised

/-- Two magnitudes closer than this count as one: the double nearest to 10⁻¹¹. -/
def tolerance : Magnitude := .float (Binary64.ofQuotient 1 (tenPow 11))

def close (a b : Magnitude) : Except ArithmeticFault Bool := do
  let d ← a.sub b
  return d.abs.lt tolerance

/-- The nearest integer, of two the even one. -/
def round : Magnitude → Except ArithmeticFault Int
  | .int n => .ok n
  | .float x =>
    match x, x.round? with
    | .nan .., _ => .error .nanToInteger
    | _, some n => .ok n
    | _, none => .error .infinityToInteger

def floor : Magnitude → Except ArithmeticFault Int
  | .int n => .ok n
  | .float x =>
    match x, x.floor? with
    | .nan .., _ => .error .nanToInteger
    | _, some n => .ok n
    | _, none => .error .infinityToInteger

def isInt (a : Magnitude) : Except ArithmeticFault Bool := do
  a.close (.int (← a.round))

end Magnitude

end SassData.Number
