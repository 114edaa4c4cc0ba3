import SassData.Text.Display
import SassData.Value

/-!
# Values among host data

How host data shows a style sheet value that it holds: the name of its kind with its fields, and not
the text that the value has in a style sheet. The spelling of a colour is no field. A custom value
has no fields that are known, so that its text stands for it.
-/

namespace SassData.Host

set_option autoImplicit false

open Number (Magnitude)

/-- How floating-point numbers without a numeral are spelled in host data. -/
def spelling : Number.Spelling := ⟨"nan", "inf"⟩

def magnitudeText : Magnitude → String
  | .int n => toString n
  | .float x => x.text spelling

def boolText (b : Bool) : String := if b then "True" else "False"

def itemsText (items : List String) : String := ", ".intercalate items

/-- A tuple from the texts of its items; one item ends in a comma. -/
def tupleText : List String → String
  | [item] => "(" ++ item ++ ",)"
  | items => "(" ++ itemsText items ++ ")"

def unitsText (units : List String) : String := tupleText (units.map Text.display)

def valueTypeName : Value → String
  | .null => "SassNull"
  | .bool _ => "SassBoolean"
  | .number _ => "SassNumber"
  | .color _ => "SassColor"
  | .string _ => "SassString"
  | .list .. => "SassList"
  | .map _ => "SassMap"
  | .custom .. => "Value"

def separatorName : Separator → String
  | .comma => "COMMA"
  | .space => "SPACE"
  | .slash => "SLASH"
  | .undecided => "UNDECIDED"

def separatorMark? : Separator → Option String
  | .comma => some ","
  | .space => some " "
  | .slash => some "/"
  | .undecided => none

def separatorText (s : Separator) : String :=
  "<Separator." ++ separatorName s ++ ": " ++ ((separatorMark? s).map Text.display).getD "None"
    ++ ">"

mutual

def valueText : Value → String
  | .null => "SassNull()"
  | .bool b => "SassBoolean(value=" ++ boolText b ++ ")"
  | .number n =>
    "SassNumber(value=" ++ magnitudeText n.magnitude ++ ", numerator_units=" ++ unitsText n.above
      ++ ", denominator_units=" ++ unitsText n.below ++ ")"
  | .color c =>
    "SassColor(red=" ++ toString c.red.toNat ++ ", green=" ++ toString c.green.toNat ++ ", blue="
      ++ toString c.blue.toNat ++ ", alpha=" ++ c.alpha.text spelling ++ ")"
  | .string text => "SassString(text=" ++ Text.display text ++ ")"
  | .list items separator bracketed =>
    "SassList(items=" ++ tupleText (valueTexts items) ++ ", separator=" ++ separatorText separator
      ++ ", bracketed=" ++ boolText bracketed ++ ")"
  | .map pairs => "SassMap(contents=" ++ tupleText (pairTexts pairs) ++ ")"
  | .custom text _ => text

def valueTexts : List Value → List String
  | [] => []
  | v :: rest => valueText v :: valueTexts rest

def pairTexts : List (Value × Value) → List String
  | [] => []
  | (key, v) :: rest => tupleText [valueText key, valueText v] :: pairTexts rest

end

end SassData.Host
