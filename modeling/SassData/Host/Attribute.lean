import SassData.Host

/-!
# Attributes of host data

What data has under a name: the fields of a record, the parts of a number, and for a style sheet
value its fields and what follows from them. To work an attribute out may fail, as for the question
whether an infinity is an integer. Data also offers operations, which are callables; those of a
style sheet value that need nothing else have their result.
-/

namespace SassData.Host

set_option autoImplicit false

abbrev Attributes := Named (Outcome Host)

def unitTexts (units : List String) : Host := .tuple (units.map text)

def optionalText : Option String → Host
  | some s => .text s
  | none => .null

def pairTuple : Value × Value → Host
  | (key, v) => .tuple [.value key, .value v]

def commonAttributes (v : Value) : Attributes :=
  [("type_name", .ok (.text v.typeName)), ("is_truthy", .ok (.bool v.isTruthy)),
    ("real_null", .ok (if v.isNull then .null else .value v)), ("as_list", .ok (.value v.toList))]

def numberAttributes (n : Number) : Attributes :=
  [("value", .ok (.number n.magnitude)), ("numerator_units", .ok (unitTexts n.above)),
    ("denominator_units", .ok (unitTexts n.below)), ("has_units", .ok (.bool n.hasUnits)),
    ("unit_string", .ok (.text n.unitText)), ("is_int", .bool <$> n.isInt)]

def colorAttributes (c : Color) : Attributes :=
  ("original", .ok (optionalText c.spelling))
    :: c.channels.map fun (name, m) => (name, .ok (.number m))

def stringAttributes (s : String) : Attributes :=
  [("text", .ok (.text s)), ("quoted", .ok (.bool (Text.isQuoted s))),
    ("value", .ok (.text (Text.unquote s))),
    ("quote_char", .ok (optionalText ((Text.mark? s).map String.singleton)))]

def mapAttributes (pairs : List (Value × Value)) : Attributes :=
  [("contents", .ok (.tuple (pairs.map pairTuple))),
    ("keys", .ok (.list (pairs.map fun pair => .value pair.1))),
    ("values", .ok (.list (pairs.map fun pair => .value pair.2)))]

def valueAttributes (v : Value) : Attributes :=
  (match v with
    | .bool b => [("value", .ok (.bool b))]
    | .number n => numberAttributes n
    | .color c => colorAttributes c
    | .string s => stringAttributes s
    | .list items s bracketed =>
      [("items", .ok (.tuple (items.map value))), ("separator", .ok (separator s)),
        ("bracketed", .ok (.bool bracketed))]
    | .map pairs => mapAttributes pairs
    | .null | .custom .. => []) ++ commonAttributes v

def integerAttributes (n : Int) : Attributes :=
  [("real", .ok (.number (.int n))), ("imag", .ok (.number 0)),
    ("numerator", .ok (.number (.int n))), ("denominator", .ok (.number 1))]

def attributes : Host → Attributes
  | record fields => fields.map fun (name, h) => (name, .ok h)
  | bool b => integerAttributes (if b then 1 else 0)
  | number (.int n) => integerAttributes n
  | number (.float x) => [("real", .ok (.number (.float x))), ("imag", .ok (.number (.float 0)))]
  | fraction num den =>
    [("real", .ok (.fraction num den)), ("imag", .ok (.number 0)),
      ("numerator", .ok (.number (.int num))), ("denominator", .ok (.number (.int den)))]
  | value v => valueAttributes v
  | measured n =>
    [("value", .ok (.number n.magnitude)), ("numerator_units", .ok (.list (n.above.map text))),
      ("denominator_units", .ok (.list (n.below.map text)))]
  | separator s =>
    [("name", .ok (.text (separatorName s))), ("value", .ok (optionalText (separatorMark? s)))]
  | _ => []

/-! ## Operations -/

def commonOperations : List String :=
  ["to_css", "assert_string", "assert_number", "assert_color", "assert_map"]

def numberOperations : List String :=
  ["with_unit", "assert_int", "assert_unitless", "same_units", "plus", "minus", "times",
    "divided_by", "modulo", "compare", "negated"]

def textOperations : List String :=
  ["capitalize", "casefold", "center", "count", "encode", "endswith", "expandtabs", "find",
   "format", "format_map", "index", "isalnum", "isalpha", "isascii", "isdecimal", "isdigit",
   "isidentifier", "islower", "isnumeric", "isprintable", "isspace", "istitle", "isupper", "join",
   "ljust", "lower", "lstrip", "maketrans", "partition", "removeprefix", "removesuffix", "replace",
   "rfind", "rindex", "rjust", "rpartition", "rsplit", "rstrip", "split", "splitlines",
   "startswith", "strip", "swapcase", "title", "translate", "upper", "zfill"]

def listOperations : List String :=
  ["append", "clear", "copy", "count", "extend", "index", "insert", "pop", "remove", "reverse",
    "sort"]

def dictOperations : List String :=
  ["clear", "copy", "fromkeys", "get", "items", "keys", "pop", "popitem", "setdefault", "update",
    "values"]

def futureOperations : List String :=
  ["cancel", "cancelled", "running", "done", "add_done_callback", "result", "exception",
    "set_running_or_notify_cancel", "set_result", "set_exception"]

def valueOperations (v : Value) : List String :=
  (match v with
    | .number _ => numberOperations
    | .color _ => ["from_hsl", "from_hwb", "from_hex", "from_name", "channels"]
    | .string _ => ["concat"]
    | .list .. => ["get"]
    | .map _ => ["items", "get"]
    | .null | .bool _ | .custom .. => []) ++ commonOperations

def operations : Host → List String
  | value v => valueOperations v
  | text _ => textOperations
  | bool _ | number (.int _) =>
    ["as_integer_ratio", "bit_count", "bit_length", "conjugate", "from_bytes", "to_bytes"]
  | number (.float _) => ["as_integer_ratio", "conjugate", "fromhex", "hex", "is_integer"]
  | fraction .. =>
    ["as_integer_ratio", "conjugate", "from_decimal", "from_float", "limit_denominator"]
  | list _ => listOperations
  | tuple _ | measured _ => ["count", "index"]
  | dict _ => dictOperations
  | future _ => futureOperations
  | indexable _ => ["get"]
  | _ => []

/-- What an operation of a style sheet value gives that needs nothing but the value. -/
def nullary? (v : Value) (name : String) : Option (Outcome Host) :=
  match name, v with
  | "to_css", v => some (.ok (.text v.css))
  | "assert_string", v => some ((fun _ => .value v) <$> v.assertString none)
  | "assert_number", v => some ((fun _ => .value v) <$> v.assertNumber none)
  | "assert_color", v => some ((fun _ => .value v) <$> v.assertColor none)
  | "assert_map", v => some ((fun _ => .value v) <$> v.assertMap none)
  | "assert_int", .number n => some ((fun i => .number (.int i)) <$> n.assertInt none)
  | "assert_unitless", .number n => some ((fun n => .value (.number n)) <$> n.assertUnitless none)
  | "negated", .number n => some (.ok (.value (.number n.negated)))
  | "channels", .color c =>
    some (.ok (dictOfNamed (c.channels.map fun (name, m) => (name, .number m))))
  | "items", .map pairs => some (.ok (.list (pairs.map pairTuple)))
  | _, _ => none

/-- An operation of some data as a callable. One that needs more than the data fails. -/
def operation (h : Host) (name : String) : Callable Host :=
  let result := match h with
    | value v => nullary? v name
    | _ => none
  match result with
  | some (.ok h) => .constant h
  | some (.error failure) => .failing failure
  | none => .failing (.host "TypeError" (name ++ "() lacks its arguments"))

def attribute? (h : Host) (name : String) : Outcome (Option Host) :=
  match Named.get? h.attributes name with
  | some outcome => some <$> outcome
  | none => .ok (if name ∈ h.operations then some (.callable (h.operation name)) else none)

end SassData.Host
