/-!
# Colour spaces

The formulas between red, green and blue on one side and hue, saturation and lightness, or hue,
whiteness and blackness, on the other. They are written over any arithmetic with an order, so that
the rounded computation and its exact reading are the same formulas. Hues go in as fractions of a
turn and come out in degrees, before reduction to one turn; the other coordinates go in as
fractions of one and come out as percentages; channels run from 0 to 255.
-/

namespace SassData.Color

set_option autoImplicit false

structure Channels (α : Type) where
  red : α
  green : α
  blue : α

section Formulas

variable {α : Type} [Add α] [Sub α] [Mul α] [Div α] [LT α] [LE α] [DecidableLT α] [DecidableLE α]
  [NatCast α] [∀ n, OfNat α n]

/-- The channel at a hue between the darkest and the brightest channel, as a fraction of one. -/
def channelAt (low high hue : α) : α :=
  let hue := if hue < 0 then hue + 1 else hue
  let hue := if 1 < hue then hue - 1 else hue
  if hue < 1 / 6 then low + (high - low) * hue * 6
  else if hue < 1 / 2 then high
  else if hue < 2 / 3 then low + (high - low) * (2 / 3 - hue) * 6
  else low

def channelsOfHsl (turn saturation lightness : α) : Channels α :=
  let high :=
    if lightness ≤ 1 / 2 then lightness * (saturation + 1)
    else lightness + saturation - lightness * saturation
  let low := lightness * 2 - high
  ⟨channelAt low high (turn + 1 / 3) * 255, channelAt low high turn * 255,
    channelAt low high (turn - 1 / 3) * 255⟩

def greyOfHwb (whiteness blackness : α) : α := whiteness / (whiteness + blackness) * 255

def tinted (whiteness blackness : α) (channel : UInt8) : α :=
  ((channel.toNat : α) / 255 * (1 - whiteness - blackness) + whiteness) * 255

def highest (r g b : α) : α :=
  let m := if r < g then g else r
  if m < b then b else m

def lowest (r g b : α) : α :=
  let m := if g < r then g else r
  if b < m then b else m

/-- The hue in degrees, not reduced to one turn; grey has hue zero. -/
def hueOf (r g b : α) : α :=
  let high := highest r g b
  let delta := high - lowest r g b
  if delta ≤ 0 then 0
  else if high ≤ r then 60 * (g - b) / delta
  else if high ≤ g then 120 + 60 * (b - r) / delta
  else 240 + 60 * (r - g) / delta

def lightnessOf (r g b : α) : α := 50 * (highest r g b + lowest r g b)

def saturationOf (r g b : α) : α :=
  let high := highest r g b
  let low := lowest r g b
  let delta := high - low
  if delta ≤ 0 then 0
  else if lightnessOf r g b < 50 then 100 * delta / (high + low)
  else 100 * delta / (2 - high - low)

def percentOf (channel : Nat) : α := (channel : α) / 255 * 100

end Formulas

end SassData.Color
