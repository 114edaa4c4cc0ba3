import SassData.Engine.Function

/-!
# Built-in functions

Colours from channels, look-up in maps and lists, and questions about values.
-/

namespace SassData.Builtin

set_option autoImplicit false

open Number (Magnitude)

def percent? (n : Number) : Option Magnitude :=
  if n.above == ["%"] && n.below.isEmpty then some n.magnitude else none

def proportion (whole : Magnitude → Except Number.ArithmeticFault Magnitude) (name : String)
    (v : Value) : Outcome Magnitude := do
  let n ← v.assertNumber (some name)
  match percent? n with
  | some m => Outcome.ofArithmetic (whole m)
  | none => return (← n.assertUnitless (some name)).magnitude

def channel (name : String) (v : Value) : Outcome Magnitude :=
  proportion (fun m => do (← m.mul 255).quotient 100) name v

def alpha (v : Value) : Outcome Magnitude := proportion (fun m => m.quotient 100) "alpha" v

def percentage (name : String) (v : Value) : Outcome Magnitude := do
  let n ← v.assertNumber (some name)
  if n.hasUnits && n.above != ["%"] then throw (.notPercentage name n.css)
  return n.magnitude

def degrees (v : Value) : Outcome Magnitude := do
  let n ← v.assertNumber (some "hue")
  if n.hasUnits && n.above != ["deg"] then throw (.notAngle n.css)
  return n.magnitude

def rgb (red green blue opacity : Value) : Outcome Value := do
  let red ← channel "red" red
  let green ← channel "green" green
  let blue ← channel "blue" blue
  let opacity ← alpha opacity
  return .color (← Outcome.ofArithmetic (Color.make red green blue opacity none))

def hsl (hue saturation lightness opacity : Value) : Outcome Value := do
  let hue ← degrees hue
  let saturation ← percentage "saturation" saturation
  let lightness ← percentage "lightness" lightness
  let opacity ← alpha opacity
  return .color (← Outcome.ofArithmetic (Color.ofHsl hue saturation lightness opacity))

/-- Follows keys through maps; where there is no map or no key, the answer is null. -/
def follow : Value → List Value → Value
  | v, [] => v
  | .map pairs, key :: keys =>
    match Value.lookup? pairs key with
    | some v => follow v keys
    | none => .null
  | _, _ :: _ => .null

def mapGet (map key keys : Value) : Outcome Value := do
  let pairs ← map.assertMap (some "map")
  return follow (.map pairs) (key :: keys.items)

/-- An item of a list; places count from one, or from minus one at the end. -/
def nth (list index : Value) : Outcome Value := do
  let items := list.items
  let n ← (← index.assertNumber (some "n")).assertInt (some "n")
  let place := if n > 0 then n - 1 else items.length + n
  if n == 0 then throw (.invalidIndex n items.length)
  match Value.item? items place with
  | some v => return v
  | none => throw (.invalidIndex n items.length)

def length (list : Value) : Outcome Value := .ok (.number (.ofInt list.items.length))

def typeOf (value : Value) : Outcome Value := .ok (.string value.typeName)

def unit (number : Value) : Outcome Value := do
  return .string (Text.quote (← number.assertNumber (some "number")).unitText "\"")

def unitless (number : Value) : Outcome Value := do
  return .bool (!(← number.assertNumber (some "number")).hasUnits)

def quote (string : Value) : Outcome Value := do
  return .string (Text.quote (Text.unquote (← string.assertString (some "string"))) "\"")

def unquote (string : Value) : Outcome Value := do
  return .string (Text.unquote (← string.assertString (some "string")))

/-! ## The registry -/

def required (name : String) : Parameter := ⟨name, none, false⟩

def opacity : Parameter := ⟨"alpha", some (.literal (.number (.ofInt 1))), false⟩

def ofOne (f : Value → Outcome Value) (arguments : List Value) : Outcome Reply :=
  .value <$> f (arguments.getD 0 .null)

def ofTwo (f : Value → Value → Outcome Value) (arguments : List Value) : Outcome Reply :=
  .value <$> f (arguments.getD 0 .null) (arguments.getD 1 .null)

def ofThree (f : Value → Value → Value → Outcome Value) (arguments : List Value) : Outcome Reply :=
  .value <$> f (arguments.getD 0 .null) (arguments.getD 1 .null) (arguments.getD 2 .null)

def ofFour (f : Value → Value → Value → Value → Outcome Value) (arguments : List Value) :
    Outcome Reply :=
  .value <$> f (arguments.getD 0 .null) (arguments.getD 1 .null) (arguments.getD 2 .null)
    (arguments.getD 3 .null)

def functions : List Function :=
  [⟨⟨"rgb", [required "red", required "green", required "blue", opacity]⟩, ofFour rgb⟩,
   ⟨⟨"rgba", [required "red", required "green", required "blue", opacity]⟩, ofFour rgb⟩,
   ⟨⟨"hsl", [required "hue", required "saturation", required "lightness", opacity]⟩, ofFour hsl⟩,
   ⟨⟨"hsla", [required "hue", required "saturation", required "lightness", opacity]⟩, ofFour hsl⟩,
   ⟨⟨"map-get", [required "map", required "key", ⟨"keys", none, true⟩]⟩, ofThree mapGet⟩,
   ⟨⟨"nth", [required "list", required "n"]⟩, ofTwo nth⟩,
   ⟨⟨"length", [required "list"]⟩, ofOne length⟩,
   ⟨⟨"type-of", [required "value"]⟩, ofOne typeOf⟩,
   ⟨⟨"unit", [required "number"]⟩, ofOne unit⟩,
   ⟨⟨"unitless", [required "number"]⟩, ofOne unitless⟩,
   ⟨⟨"quote", [required "string"]⟩, ofOne quote⟩,
   ⟨⟨"unquote", [required "string"]⟩, ofOne unquote⟩]

def registry : Registry := functions.foldl Registry.register []

end SassData.Builtin
