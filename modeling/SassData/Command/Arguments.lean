/-!
# Command line arguments

Arguments are options and operands in any order; after a double dash all are operands. An option is
a long name, which may take a value after an equals sign or as the next argument. What is not known
is an error.
-/

namespace SassData.Command

set_option autoImplicit false

structure Options where
  flags : List String
  valued : List String

/-- Options in their order, each with its value if it takes one, and operands. -/
structure Arguments where
  options : List (String × String)
  operands : List String

def splitOption (argument : String) : String × Option String :=
  let text := argument.toList
  match text.dropWhile (· != '=') with
  | '=' :: value => (String.ofList (text.takeWhile (· != '=')), some (String.ofList value))
  | _ => (argument, none)

def isOption (argument : String) : Bool :=
  match argument.toList with
  | '-' :: _ :: _ => true
  | _ => false

/-- The arguments sorted, or none if one is not known, lacks its value or has one too many. -/
def Options.sort? (o : Options) : List String → Option Arguments
  | [] => some ⟨[], []⟩
  | "--" :: rest => some ⟨[], rest⟩
  | argument :: rest =>
    if !isOption argument then
      (o.sort? rest).map fun a => { a with operands := argument :: a.operands }
    else
      let (name, value) := splitOption argument
      let taken (value : String) (rest : Option Arguments) : Option Arguments :=
        rest.map fun a => { a with options := (name, value) :: a.options }
      if o.flags.contains name && value.isNone then taken "" (o.sort? rest)
      else if o.valued.contains name then
        match value, rest with
        | some value, rest => taken value (o.sort? rest)
        | none, value :: rest => taken value (o.sort? rest)
        | none, [] => none
      else none

def Arguments.last? (a : Arguments) (name : String) : Option String :=
  a.options.reverse.lookup name

def Arguments.has (a : Arguments) (name : String) : Bool := (a.last? name).isSome

end SassData.Command
