import SassData.Color.Conversion
import SassData.Color.Names
import SassData.Number.Fixed
import SassData.Text.Digit

/-!
# Colours

A colour has three channels of a byte each and an opacity between nought and one. Whatever is given
for a channel is brought into range and rounded, a half upwards. A colour that was written in a
style sheet remembers its spelling, which is shown and otherwise of no account.
-/

namespace SassData

set_option autoImplicit false

open Number (Binary64 Magnitude ArithmeticFault)

structure Color where
  red : UInt8
  green : UInt8
  blue : UInt8
  alpha : Binary64
  spelling : Option String

namespace Color

def roundChannel (a : Magnitude) : Except ArithmeticFault UInt8 := do
  let bounded := a.clamp (.float 0) (.float 255)
  let n ← (← bounded.add (.float (1 / 2))).floor
  return UInt8.ofNat n.toNat

def clampAlpha (x : Binary64) : Binary64 :=
  let raised := if x < 0 then 0 else x
  if 1 < raised then 1 else raised

def make (red green blue alpha : Magnitude) (spelling : Option String) :
    Except ArithmeticFault Color := do
  let red ← roundChannel red
  let green ← roundChannel green
  let blue ← roundChannel blue
  return ⟨red, green, blue, clampAlpha (← alpha.toFloat), spelling⟩

def turn : Magnitude → Binary64
  | .int n => .ofQuotient (n % 360) 360
  | .float x => x % 360 / 360

def fraction (a : Magnitude) : Binary64 :=
  match a.clamp 0 100 with
  | .int n => .ofQuotient n 100
  | .float x => x / 100

def ofHsl (hue saturation lightness alpha : Magnitude) : Except ArithmeticFault Color :=
  let c := channelsOfHsl (turn hue) (fraction saturation) (fraction lightness)
  make (.float c.red) (.float c.green) (.float c.blue) alpha none

/-- Whiteness and blackness that leave no room make a grey; else they tint the pure hue, whose
channels are rounded first. -/
def ofHwb (hue whiteness blackness alpha : Magnitude) : Except ArithmeticFault Color := do
  let w := fraction whiteness
  let b := fraction blackness
  if 1 ≤ w + b then
    let grey := Magnitude.float (greyOfHwb w b)
    make grey grey grey alpha none
  else
    let base ← ofHsl hue 100 50 1
    make (.float (tinted w b base.red)) (.float (tinted w b base.green))
      (.float (tinted w b base.blue)) alpha none

def bytes? : List Char → Option (List Nat)
  | [] => some []
  | [_] => none
  | high :: low :: rest => do
    let value := 16 * (← Text.hexDigit? high) + (← Text.hexDigit? low)
    return value :: (← bytes? rest)

/-- Three, four, six or eight hexadecimal digits after an optional hash. Of three or four each
stands for two. -/
def ofHex? (text : String) : Option Color := do
  let digits := match text.toList with
    | '#' :: rest => rest
    | all => all
  let digits ←
    if digits.length == 3 || digits.length == 4 then some (digits.flatMap fun d => [d, d])
    else if digits.length == 6 || digits.length == 8 then some digits
    else none
  match ← bytes? digits with
  | [r, g, b] => some ⟨.ofNat r, .ofNat g, .ofNat b, 1, some text⟩
  | [r, g, b, a] => some ⟨.ofNat r, .ofNat g, .ofNat b, .ofQuotient a 255, some text⟩
  | _ => none

def ofName? (name : String) : Option Color :=
  if foldCase name == "transparent" then some ⟨0, 0, 0, 0, some name⟩
  else (named? name).map fun n =>
    ⟨.ofNat (n / 0x10000), .ofNat (n / 0x100 % 0x100), .ofNat (n % 0x100), 1, some name⟩

def scaled (c : Color) : Channels Binary64 :=
  ⟨.ofQuotient c.red.toNat 255, .ofQuotient c.green.toNat 255, .ofQuotient c.blue.toNat 255⟩

def hue (c : Color) : Binary64 :=
  let s := c.scaled
  hueOf s.red s.green s.blue % 360

def lightness (c : Color) : Binary64 :=
  let s := c.scaled
  lightnessOf s.red s.green s.blue

def saturation (c : Color) : Binary64 :=
  let s := c.scaled
  saturationOf s.red s.green s.blue

def whiteness (c : Color) : Binary64 :=
  percentOf (min c.red.toNat (min c.green.toNat c.blue.toNat))

def blackness (c : Color) : Binary64 :=
  100 - percentOf (max c.red.toNat (max c.green.toNat c.blue.toNat))

def channels (c : Color) : List (String × Magnitude) :=
  [("red", .int c.red.toNat), ("green", .int c.green.toNat), ("blue", .int c.blue.toNat),
    ("hue", .float c.hue), ("lightness", .float c.lightness), ("saturation", .float c.saturation),
    ("whiteness", .float c.whiteness), ("blackness", .float c.blackness), ("alpha", .float c.alpha)]

def css (c : Color) : String :=
  match c.spelling with
  | some text => text
  | none =>
    if 1 ≤ c.alpha then
      String.ofList ('#' :: [c.red, c.green, c.blue].flatMap fun n => Text.hex 2 n.toNat)
    else
      "rgba(" ++ toString c.red.toNat ++ ", " ++ toString c.green.toNat ++ ", "
        ++ toString c.blue.toNat ++ ", " ++ c.alpha.styleText ++ ")"

/-- Equality of what is seen: the spelling is left out. -/
def same (c d : Color) : Bool :=
  c.red == d.red && c.green == d.green && c.blue == d.blue
    && Magnitude.same (.float c.alpha) (.float d.alpha)

end Color

end SassData
