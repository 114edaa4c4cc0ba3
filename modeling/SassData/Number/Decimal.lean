import SassData.Number.Binary64

/-!
# Decimal text of floating-point numbers

Reading takes a decimal numeral to the nearest number. Writing gives the fewest digits that read
back as the same number and, of those, the ones nearest to it: for each digit count in turn the
two neighbours of the number on that decimal grid are tried. Numerals are positional from 10⁻⁴ up
to 10¹⁶ and scientific beyond, with at least two digits in the exponent.
-/

namespace SassData.Number

set_option autoImplicit false

namespace Binary64

/-- The nearest number to `digits · 10 ^ exponent`. Exponents so far out that the answer is zero
or an infinity whatever the digits are not worked out. -/
def ofDecimal (negative : Bool) (digits : Nat) (exponent : Int) : Binary64 :=
  if digits == 0 then zero negative
  else if exponent > 310 then .infinity negative
  else if exponent < -(400 + digits.log2 : Int) then zero negative
  else if exponent < 0 then nearest negative (digits * unitsInOne) (tenPow exponent.natAbs)
  else nearest negative (digits * tenPow exponent.natAbs * unitsInOne) 1

end Binary64

structure Numeral where
  digits : Nat
  exponent : Int

def scaleDown (units : Nat) (exponent : Int) : Nat × Nat :=
  if exponent < 0 then (units * tenPow exponent.natAbs, unitsInOne)
  else (units, unitsInOne * tenPow exponent.natAbs)

/-- The first power of ten, from the one given on, whose successor is above the number. -/
def leadingPowerFrom (units : Nat) (exponent : Int) : Nat → Int
  | 0 => exponent
  | n + 1 =>
    let (num, den) := scaleDown units (exponent + 1)
    if den ≤ num then leadingPowerFrom units (exponent + 1) n else exponent

/-- The exponent of the leading decimal digit. The count of binary digits tells it up to two. -/
def leadingPower (units : Nat) : Int :=
  leadingPowerFrom units ((((units.log2 : Int) - 1074) * 30103).fdiv 100000 - 1) 3

/-- The neighbours of the number with the given count of digits that read back, the nearer first;
of two equally near ones the even one is first. -/
def readingBack (units : Nat) (power : Int) (count : Nat) : Option Numeral :=
  let exponent := power - (count - 1 : Nat)
  let (num, den) := scaleDown units exponent
  let low := num / den
  let nearer := roundQuotient num den
  let other := if nearer == low then low + 1 else low
  [nearer, other].findSome? fun digits =>
    let read := Binary64.ofDecimal false digits exponent
    if read.signedUnits == units && read.isFinite then some ⟨digits, exponent⟩ else none

/-- The shortest numeral that reads back as a positive number of units. Seventeen digits always
do. -/
def shortest (units : Nat) : Numeral :=
  let power := leadingPower units
  ((List.range 17).findSome? fun n => readingBack units power (n + 1)).getD ⟨units, -1074⟩

/-- Trailing zeros of the digits moved into the exponent; at most `n` of them. -/
def trimZeros : Nat → Numeral → Numeral
  | 0, d => d
  | n + 1, d => if d.digits % 10 == 0 then trimZeros n ⟨d.digits / 10, d.exponent + 1⟩ else d

/-- The exponent of a scientific numeral: a sign and at least two digits. -/
def exponentText (power : Int) : String :=
  (if power < 0 then "-" else "+")
    ++ (if power.natAbs < 10 then "0" else "") ++ toString power.natAbs

def Numeral.text (d : Numeral) : String :=
  let digits := (toString d.digits).toList
  let power := d.exponent + (digits.length : Int) - 1
  if -4 ≤ power && power < 16 then
    if d.exponent ≥ 0 then
      String.ofList (digits ++ List.replicate d.exponent.natAbs '0' ++ ['.', '0'])
    else if power < 0 then
      String.ofList ('0' :: '.' :: (List.replicate (power.natAbs - 1) '0' ++ digits))
    else
      let whole := (power + 1).natAbs
      String.ofList (digits.take whole ++ '.' :: digits.drop whole)
  else
    let fraction := digits.drop 1
    String.ofList (digits.take 1 ++ (if fraction.isEmpty then [] else '.' :: fraction))
      ++ "e" ++ exponentText power

structure Spelling where
  nan : String
  infinity : String

def Binary64.text (spelling : Spelling) : Binary64 → String
  | .nan .. => spelling.nan
  | .infinity s => (if s then "-" else "") ++ spelling.infinity
  | .finite s u _ =>
    (if s then "-" else "") ++ if u == 0 then "0.0" else (trimZeros 17 (shortest u)).text

end SassData.Number
