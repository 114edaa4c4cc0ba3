import SassData.Number.Magnitude

/-!
# Magnitudes in style sheets

A magnitude is written with at most ten decimal places, without superfluous zeros and never as
minus zero. What lies within the tolerance of an integer is written as that integer.
-/

namespace SassData.Number

set_option autoImplicit false

def places : Nat := 10

def dropTrailingZeros (digits : List Char) : List Char :=
  (digits.reverse.dropWhile (· == '0')).reverse

/-- The last `places` digits of a number, zeros in front included, then without those behind. -/
def fractionDigits (n : Nat) : List Char :=
  let digits := (toString (n % tenPow places)).toList
  dropTrailingZeros (List.replicate (places - digits.length) '0' ++ digits)

def fixedText (negative : Bool) (n : Nat) : String :=
  let fraction := fractionDigits n
  let body := (toString (n / tenPow places)).toList
    ++ if fraction.isEmpty then [] else '.' :: fraction
  String.ofList (if negative && n != 0 then '-' :: body else body)

def Binary64.styleText : Binary64 → String
  | .nan .. => "NaN"
  | .infinity s => if s then "-Infinity" else "Infinity"
  | x@(.finite s u _) =>
    let n := roundQuotient u unitsInOne
    let whole := Binary64.ofInt (if s then -(n : Int) else n)
    if Magnitude.lt (.float (x - whole).abs) Magnitude.tolerance then
      if s && n != 0 then "-" ++ toString n else toString n
    else fixedText s (roundQuotient (u * tenPow places) unitsInOne)

def Magnitude.styleText : Magnitude → String
  | .int n => toString n
  | .float x => x.styleText

end SassData.Number
