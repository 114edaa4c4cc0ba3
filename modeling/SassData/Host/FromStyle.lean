import SassData.Host

/-!
# Host data from style sheet values

Every value has host data. Numbers with units are given as text unless they are to keep their
units, colours as text unless their channels are asked for, strings without one pair of marks unless
these are to stay. Maps become dictionaries with text keys; of keys that become equal the last
counts. A custom value stays as it is.
-/

namespace SassData.Host

set_option autoImplicit false

structure FromStyle where
  keepUnits : Bool
  colorChannels : Bool
  keepMarks : Bool

def keyText : Value → String
  | .string s => Text.unquote s
  | v => Text.unquote v.css

mutual

def ofValue (options : FromStyle) : Value → Host
  | .null => .null
  | .bool b => .bool b
  | .number n =>
    if options.keepUnits then .measured n
    else if n.hasUnits then .text n.css
    else .number n.magnitude
  | .color c =>
    if options.colorChannels then dictOfNamed (c.channels.map fun (name, m) => (name, .number m))
    else .text c.css
  | .string s => .text (if options.keepMarks then s else Text.unquote s)
  | .list items _ _ => .list (ofValues options items)
  | .map pairs => dictOfNamed (ofPairs options pairs)
  | .custom s i => .value (.custom s i)

def ofValues (options : FromStyle) : List Value → List Host
  | [] => []
  | v :: rest => ofValue options v :: ofValues options rest

def ofPairs (options : FromStyle) : List (Value × Value) → List (String × Host)
  | [] => []
  | (key, v) :: rest => (keyText key, ofValue options v) :: ofPairs options rest

end

/-- The items that a callable gives for the places from zero on, up to the first that is missing.
One that does not begin with a missing item has no end. -/
def itemsBy (c : Callable Host) : Outcome (List Host) := do
  match ← c.call [.number 0] with
  | .null => return []
  | _ => throw .endless

mutual

/-- The same for data that holds style sheet values: lists, tuples and what gives its items by place
become lists, and what is no style sheet value stays. -/
def resolve (options : FromStyle) : Host → Outcome Host
  | value v => .ok (ofValue options v)
  | list items => .list <$> resolveItems options items
  | tuple items => .list <$> resolveItems options items
  | measured n => .ok (.list (measuredItems n))
  | indexable items => .list <$> resolveUntilNull options items
  | record fields =>
    match fields.lookup "get" with
    | some (.callable c) => .list <$> itemsBy c
    | _ => .ok (.record fields)
  | h => .ok h

def resolveItems (options : FromStyle) : List Host → Outcome (List Host)
  | [] => .ok []
  | h :: rest => do
    let h ← resolve options h
    return h :: (← resolveItems options rest)

def resolveUntilNull (options : FromStyle) : List Host → Outcome (List Host)
  | [] => .ok []
  | .null :: _ => .ok []
  | h :: rest => do
    let h ← resolve options h
    return h :: (← resolveUntilNull options rest)

end

end SassData.Host
