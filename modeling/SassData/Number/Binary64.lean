import SassData.Identity
import SassData.Number.Rounding

/-!
# Binary floating point

A finite number is a whole multiple of 2⁻¹⁰⁷⁴ with at most 53 significant bits, below 2¹⁰²⁴. The
multiple is kept as a natural number with the sign beside it, so that zero has two forms and
every order or rounding question is one about integers. Each operation computes the exact result
on that grid and rounds once, a half to the even neighbour. What is not a number keeps a sign,
which shows when it decides the sign of an infinity, and an identity; every operation on one makes
another.
-/

namespace SassData.Number

set_option autoImplicit false

/-- Units in one: a finite number counts multiples of 2⁻¹⁰⁷⁴. -/
def unitsInOne : Nat := twoPow 1074

/-- The first count of units that is too large. -/
def unitsBound : Nat := twoPow 2098

/-- What a finite number counts: not too many units, and at most 53 significant bits of them. -/
structure InFormat (units : Nat) : Prop where
  fits : Fits units
  notTooLarge : ¬ unitsBound ≤ units

inductive Binary64
  | nan (negative : Bool) (identity : Identity)
  | infinity (negative : Bool)
  | finite (negative : Bool) (units : Nat) (inFormat : InFormat units)
  deriving DecidableEq

namespace Binary64

def nearest (negative : Bool) (num den : Nat) : Binary64 :=
  if h : roundBits num den < unitsBound then
    .finite negative (roundBits num den) ⟨fits_roundBits num den, Nat.not_le_of_lt h⟩
  else .infinity negative

def zero (negative : Bool) : Binary64 := nearest negative 0 1

def isNegative : Binary64 → Bool
  | .nan s _ => s
  | .infinity s => s
  | .finite s _ _ => s

def isFinite : Binary64 → Bool
  | .finite .. => true
  | _ => false

def isNan : Binary64 → Bool
  | .nan .. => true
  | _ => false

def signedUnits : Binary64 → Int
  | .finite s u _ => if s then -(u : Int) else u
  | _ => 0

def isZero : Binary64 → Bool
  | .finite _ u _ => u == 0
  | _ => false

/-- The nearest number to a signed count of units over `den`; a zero is positive. -/
def ofUnits (units : Int) (den : Nat) : Binary64 := nearest (units < 0) units.natAbs den

def ofInt (n : Int) : Binary64 := ofUnits (n * unitsInOne) 1

/-- The nearest number to a quotient of integers; a zero takes the sign of the quotient. -/
def ofQuotient (num den : Int) : Binary64 :=
  nearest ((num < 0) != (den < 0)) (num.natAbs * unitsInOne) den.natAbs

instance : NatCast Binary64 := ⟨fun n => ofInt n⟩

instance {n : Nat} : OfNat Binary64 n := ⟨ofInt n⟩

def neg : Binary64 → Binary64
  | .nan s _ => .nan (!s) .passing
  | .infinity s => .infinity !s
  | .finite s u h => .finite (!s) u h

def abs : Binary64 → Binary64
  | .nan .. => .nan false .passing
  | .infinity _ => .infinity false
  | .finite _ u h => .finite false u h

/-- A sum that is zero is negative only if both terms are. -/
def add : Binary64 → Binary64 → Binary64
  | .nan s _, _ => .nan s .passing
  | _, .nan s _ => .nan s .passing
  | .infinity s, .infinity t => if s == t then .infinity s else .nan true .passing
  | .infinity s, _ => .infinity s
  | _, .infinity t => .infinity t
  | x@(.finite s _ _), y@(.finite t _ _) =>
    let sum := x.signedUnits + y.signedUnits
    if sum == 0 then zero (s && t) else ofUnits sum 1

def sub : Binary64 → Binary64 → Binary64
  | .nan s _, _ => .nan s .passing
  | _, .nan s _ => .nan s .passing
  | x, y => add x (neg y)

def mul : Binary64 → Binary64 → Binary64
  | .nan s _, _ => .nan s .passing
  | _, .nan s _ => .nan s .passing
  | .infinity s, .infinity t => .infinity (s != t)
  | .infinity s, .finite t u _ => if u == 0 then .nan true .passing else .infinity (s != t)
  | .finite s u _, .infinity t => if u == 0 then .nan true .passing else .infinity (s != t)
  | .finite s u _, .finite t v _ => nearest (s != t) (u * v) unitsInOne

/-- The quotient; division by zero gives an infinity, or no number for zero by zero. -/
def div : Binary64 → Binary64 → Binary64
  | .nan s _, _ => .nan s .passing
  | _, .nan s _ => .nan s .passing
  | .infinity _, .infinity _ => .nan true .passing
  | .infinity s, .finite t _ _ => .infinity (s != t)
  | .finite s _ _, .infinity t => zero (s != t)
  | .finite s u _, .finite t v _ =>
    if v == 0 then (if u == 0 then .nan true .passing else .infinity (s != t))
    else nearest (s != t) (u * unitsInOne) v

/-- The remainder of the quotient cut off towards zero, with the sign of the dividend; nothing for
an infinite dividend or a zero divisor. -/
def remainder? : Binary64 → Binary64 → Option Binary64
  | .nan s _, _ => some (.nan s .passing)
  | _, .nan s _ => some (.nan s .passing)
  | .infinity _, _ => none
  | x, .infinity _ => some x
  | .finite s u _, .finite _ v _ => if v == 0 then none else some (nearest s (u % v) 1)

/-- The remainder of the quotient rounded down, with the sign of the divisor. -/
def mod (x y : Binary64) : Binary64 :=
  match remainder? x y with
  | none => .nan true .passing
  | some r =>
    if r.isNan then r
    else if r.isZero then zero y.isNegative
    else if r.isNegative != y.isNegative then add r y
    else r

/-- Numeric order; nothing is below or above what is not a number. -/
def lt : Binary64 → Binary64 → Bool
  | .nan .., _ => false
  | _, .nan .. => false
  | .infinity s, .infinity t => s && !t
  | .infinity s, _ => s
  | _, .infinity t => !t
  | x, y => x.signedUnits < y.signedUnits

/-- Whether neither is a number and both are one thing. -/
def sameNan : Binary64 → Binary64 → Bool
  | .nan _ i, .nan _ j => i.same j
  | _, _ => false

/-- Numeric equality: the two zeros are equal, and what is not a number equals nothing. -/
def eq : Binary64 → Binary64 → Bool
  | .nan .., _ => false
  | _, .nan .. => false
  | .infinity s, .infinity t => s == t
  | .infinity _, _ => false
  | _, .infinity _ => false
  | x, y => x.signedUnits == y.signedUnits

def le (x y : Binary64) : Bool := lt x y || eq x y

theorem le_nan (x : Binary64) (negative : Bool) (identity : Identity) :
    le x (.nan negative identity) = false := by
  cases x <;> rfl

instance : Neg Binary64 := ⟨neg⟩
instance : Add Binary64 := ⟨add⟩
instance : Sub Binary64 := ⟨sub⟩
instance : Mul Binary64 := ⟨mul⟩
instance : Div Binary64 := ⟨div⟩
instance : Mod Binary64 := ⟨mod⟩
instance : LT Binary64 := ⟨fun x y => lt x y = true⟩
instance : LE Binary64 := ⟨fun x y => le x y = true⟩
instance : DecidableLT Binary64 := fun x y => inferInstanceAs (Decidable (lt x y = true))
instance : DecidableLE Binary64 := fun x y => inferInstanceAs (Decidable (le x y = true))

def isWhole : Binary64 → Bool
  | .finite _ u _ => u % unitsInOne == 0
  | _ => false

def floor? : Binary64 → Option Int
  | x@(.finite ..) => some (x.signedUnits.fdiv unitsInOne)
  | _ => none

/-- The nearest integer to a finite number, of two the even one. -/
def round? : Binary64 → Option Int
  | .finite s u _ =>
    let n := roundQuotient u unitsInOne
    some (if s then -(n : Int) else n)
  | _ => none

/-! ## The interchange format -/

/-- The number that 64 bits stand for: a sign, eleven bits of exponent, 52 of fraction. -/
def ofBits (bits : Nat) : Binary64 :=
  let negative := bits / twoPow 63 % 2 == 1
  let exponent := bits / twoPow 52 % 2048
  let fraction := bits % twoPow 52
  if exponent == 2047 then if fraction == 0 then .infinity negative else .nan negative .passing
  else if exponent == 0 then nearest negative fraction 1
  else nearest negative ((twoPow 52 + fraction) * twoPow (exponent - 1)) 1

def toBits : Binary64 → Nat
  | .nan s _ => (if s then twoPow 63 else 0) + 4095 * twoPow 51
  | .infinity s => (if s then twoPow 63 else 0) + 2047 * twoPow 52
  | .finite s u _ =>
    let k := excessBits u
    (if s then twoPow 63 else 0) + (if u < twoPow 52 then u else k * twoPow 52 + u / twoPow k)

end Binary64

end SassData.Number
