import SassData.Failure
import SassData.Host.ValueText
import SassData.Named

/-!
# Host data

The data of the program that uses style sheets: nested lists, tuples, dictionaries and records of
scalars, with style sheet values, callables and futures among them. A future is known by its place
in a store. Integers, floating-point numbers and truth values are equal when their numbers are, and
a dictionary finds its keys by that equality; what is no number is found where it is one thing.
-/

namespace SassData

set_option autoImplicit false

open Number (Magnitude Binary64)

/-- What a callable does with its arguments: it gives a fixed result, the arguments themselves, the
sum of the first two, or fails. -/
inductive Callable (α : Type)
  | constant (result : α)
  | arguments
  | sum
  | failing (failure : Failure)

/-- A measured number keeps its units, a separator is one of a list, and foreign data is any
other. -/
inductive Host
  | null
  | bool (b : Bool)
  | number (m : Magnitude)
  | fraction (num den : Int)
  | text (s : String)
  | list (items : List Host)
  | tuple (items : List Host)
  | dict (entries : List (Host × Host))
  | record (fields : List (String × Host))
  | indexable (items : List Host)
  | value (v : Value)
  | measured (n : Number)
  | separator (s : Separator)
  | callable (c : Callable Host)
  | future (place : Nat)
  | foreign

namespace Host

instance : Inhabited Host := ⟨.null⟩

def typeName : Host → String
  | null => "NoneType"
  | bool _ => "bool"
  | number (.int _) => "int"
  | number (.float _) => "float"
  | fraction .. => "Fraction"
  | text _ => "str"
  | list _ => "list"
  | tuple _ => "tuple"
  | dict _ => "dict"
  | record _ => "record"
  | indexable _ => "indexable"
  | value v => valueTypeName v
  | measured _ => "NumberWithUnits"
  | separator _ => "Separator"
  | callable _ => "function"
  | future _ => "Future"
  | foreign => "object"

def magnitude? : Host → Option Magnitude
  | bool b => some (.int (if b then 1 else 0))
  | number m => some m
  | _ => none

def isTruthy : Host → Bool
  | null => false
  | bool b => b
  | number m => !m.isZero
  | fraction num _ => num != 0
  | text s => !s.isEmpty
  | list items => !items.isEmpty
  | tuple items => !items.isEmpty
  | dict entries => !entries.isEmpty
  | _ => true

/-- A measured number is a tuple of its number and of the lists of its units. -/
def measuredItems (n : Number) : List Host :=
  [.number n.magnitude, .list (n.above.map text), .list (n.below.map text)]

def asTuple : Host → Host
  | measured n => .tuple (measuredItems n)
  | h => h

/-! ## The text of host data -/

def measuredText (n : Number) : String :=
  "NumberWithUnits(value=" ++ magnitudeText n.magnitude ++ ", numerator_units=["
    ++ itemsText (n.above.map Text.display) ++ "], denominator_units=["
    ++ itemsText (n.below.map Text.display) ++ "])"

mutual

def display : Host → String
  | null => "None"
  | bool b => boolText b
  | number m => magnitudeText m
  | fraction num den => "Fraction(" ++ toString num ++ ", " ++ toString den ++ ")"
  | text s => Text.display s
  | list items => "[" ++ itemsText (displayItems items) ++ "]"
  | tuple items => tupleText (displayItems items)
  | dict entries => "\x7b" ++ itemsText (displayEntries entries) ++ "\x7d"
  | record fields => "record(" ++ itemsText (displayFields fields) ++ ")"
  | indexable _ => "indexable"
  | value v => valueText v
  | measured n => measuredText n
  | separator s => separatorText s
  | callable _ => "function"
  | future _ => "future"
  | foreign => "object"

def displayItems : List Host → List String
  | [] => []
  | item :: rest => display item :: displayItems rest

def displayEntries : List (Host × Host) → List String
  | [] => []
  | (key, item) :: rest => (display key ++ ": " ++ display item) :: displayEntries rest

def displayFields : List (String × Host) → List String
  | [] => []
  | (name, item) :: rest => (name ++ "=" ++ display item) :: displayFields rest

end

/-- The text that stands for data: a text itself, and otherwise what shows it. -/
def plainText : Host → String
  | text s => s
  | value v => v.css
  | separator s => "Separator." ++ separatorName s
  | fraction num den => if den == 1 then toString num else toString num ++ "/" ++ toString den
  | h => h.display

/-! ## Equality and dictionaries -/

/-- Whether a fraction is the number of a scalar, exactly. -/
def isFraction (num den : Int) (h : Host) : Bool :=
  match h.magnitude? with
  | some (.int n) => num == n * den
  | some (.float x) => x.isFinite && num * Number.unitsInOne == x.signedUnits * den
  | none => false

mutual

/-- Equality of data as keys. -/
def same : Host → Host → Bool
  | null, null => true
  | text a, text b => a == b
  | list xs, list ys => sameItems xs ys
  | tuple xs, tuple ys => sameItems xs ys
  | fraction a b, fraction c d => a * d == c * b
  | fraction a b, h => isFraction a b h
  | h, fraction a b => isFraction a b h
  | value v, value w => v.same w
  | future m, future n => m == n
  | bool a, h => h.magnitude?.any fun m => m.eq (.int (if a then 1 else 0))
  | number m, h => h.magnitude?.any fun n => m.same n
  | _, _ => false

def sameItems : List Host → List Host → Bool
  | [], [] => true
  | x :: xs, y :: ys => same x y && sameItems xs ys
  | _, _ => false

end

mutual

/-- Whether data can be a key: lists, dictionaries and records cannot, nor what holds one. -/
def isHashable : Host → Bool
  | list _ => false
  | dict _ => false
  | record _ => false
  | measured _ => false
  | tuple items => allHashable items
  | _ => true

def allHashable : List Host → Bool
  | [] => true
  | item :: rest => isHashable item && allHashable rest

end

/-- Gives a key its entry; a key that is there keeps its place and its own form. -/
def putEntry (key item : Host) : List (Host × Host) → List (Host × Host)
  | [] => [(key, item)]
  | (k, old) :: rest =>
    if k.same key then (k, item) :: rest else (k, old) :: putEntry key item rest

def itemUnder? (entries : List (Host × Host)) (key : Host) : Option Host :=
  (entries.find? fun entry => entry.1.same key).map Prod.snd

def dictOf (entries : List (Host × Host)) : Host :=
  .dict (entries.foldl (fun all (key, item) => putEntry key item all) [])

def dictOfNamed (entries : List (String × Host)) : Host :=
  .dict ((entries.foldl (fun all (name, item) => Named.put name item all) []).map
    fun (name, item) => (.text name, item))

/-! ## Arithmetic -/

def unsupported {α : Type} (op : String) (a b : Host) : Outcome α :=
  .error (.host "TypeError" ("unsupported operand type(s) for " ++ op ++ ": "
    ++ Text.display a.typeName ++ " and " ++ Text.display b.typeName))

def notJoinable {α : Type} (a b : Host) : Outcome α :=
  .error (.host "TypeError" ("can only concatenate " ++ a.typeName ++ " (not \"" ++ b.typeName
    ++ "\") to " ++ a.typeName))

/-- Numbers are added; texts, lists and tuples are joined with their own kind. -/
def add (a b : Host) : Outcome Host :=
  match a.asTuple, b.asTuple with
  | text s, text t => .ok (.text (s ++ t))
  | list xs, list ys => .ok (.list (xs ++ ys))
  | tuple xs, tuple ys => .ok (.tuple (xs ++ ys))
  | text _, _ | list _, _ | tuple _, _ => notJoinable a.asTuple b
  | _, _ =>
    match a.magnitude?, b.magnitude? with
    | some m, some n => .number <$> Outcome.ofArithmetic (m.add n)
    | _, _ => unsupported "+" a b

def double (a : Host) : Outcome Host :=
  match a.asTuple with
  | text s => .ok (.text (s ++ s))
  | list xs => .ok (.list (xs ++ xs))
  | tuple xs => .ok (.tuple (xs ++ xs))
  | _ =>
    match a.magnitude? with
    | some m => .number <$> Outcome.ofArithmetic (m.mul 2)
    | none => unsupported "*" a (.number 2)

def sum (items : List Host) : Outcome Host := items.foldlM add (.number 0)

end Host

def Callable.call (c : Callable Host) (given : List Host) : Outcome Host :=
  match c with
  | constant result => .ok result
  | arguments => .ok (.list given)
  | sum =>
    match given with
    | a :: b :: _ => a.add b
    | _ => .error (.host "IndexError" "tuple index out of range")
  | failing failure => .error failure

end SassData
