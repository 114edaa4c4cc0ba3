import SassData.Document.Toml
import SassData.Host.Path
import SassData.Module.Files

/-!
# Loading data

A name leads to a JSON or TOML file of the working directory, and after a colon to an attribute of
what the file holds. Whatever is not the path of such a file is not found.
-/

namespace SassData.Module

set_option autoImplicit false

/-- A name's target and the attribute path behind its last colon, if a path stands there. One line
break at the end is put up with. -/
def target (name : String) : String × Option (List String) :=
  let reversed := name.toList.reverse
  let behind := (reversed.takeWhile (· != ':')).reverse
  let before := ((reversed.dropWhile (· != ':')).drop 1).reverse
  let path := if behind.getLast? == some '\n' then behind.dropLast else behind
  let isPath := path.head?.any Text.isNameStart
    && path.all fun c => c.isAlphanum || c == '_' || c == '.'
  if !before.isEmpty && isPath && !before.contains '\n' then
    (String.ofList before, some ((path.splitOn '.').map String.ofList))
  else (name, none)

def read? (name text : String) : Option (Outcome Host) :=
  let text := Files.lines text
  if Files.suffix name == ".json" then some (Json.read text)
  else if Files.suffix name == ".toml" then some (Toml.read text)
  else none

def select (path : List String) : Host → List String → Outcome Host
  | h, [] => .ok h
  | h, name :: rest => do
    match ← h.attribute? name with
    | some h => select path h rest
    | none => throw (.unresolvedPath (path.map Text.display) (Text.display name) none)

def load (files : Files) (name : String) : Outcome Host := do
  let (path, steps) := target name
  if name.isEmpty then throw (.host "ValueError" "Empty module name")
  if !(path.endsWith ".json" || path.endsWith ".toml") then throw (.moduleNotFound name)
  match files.find? path with
  | none => throw (.moduleNotFound name)
  | some (parts, text) =>
    match read? (parts.getLast?.getD "") text with
    | none => throw (.moduleNotFound name)
    | some outcome =>
      let data ← outcome
      match steps with
      | none => return data
      | some steps => select steps data steps

end SassData.Module
