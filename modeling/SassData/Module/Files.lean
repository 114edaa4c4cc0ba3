/-!
# Files

What a working directory holds: texts under relative paths. A path is walked part by part; dots stay
in place, double dots go back, and every part but the last has to be a directory.
-/

namespace SassData

set_option autoImplicit false

abbrev Files := List (String × String)

namespace Files

def pieces (path : String) : List String := (path.toList.splitOn '/').map String.ofList

/-- The parts of a path, those that stay in place left out. -/
def parts (path : String) : List String :=
  (pieces path).filter fun part => part != "" && part != "."

def entries (files : Files) : List (List String × String) :=
  files.map fun (path, text) => (parts path, text)

/-- Whether parts lead to a directory: one that some file is below of. -/
def isDirectory (files : Files) (place : List String) : Bool :=
  place.isEmpty || files.entries.any fun (path, _) => place.isPrefixOf path && place != path

/-- Walks on from a directory to a file: the parts that lead to it, and its text. -/
def walk (files : Files) : List String → List String → Option (List String × String)
  | _, [] => none
  | place, [part] =>
    if part == ".." then none
    else files.entries.reverse.find? fun (path, _) => path == place ++ [part]
  | place, part :: rest =>
    if part == ".." then if place.isEmpty then none else walk files place.dropLast rest
    else
      let next := place ++ [part]
      if files.isDirectory next then walk files next rest else none

/-- Whether a path can only be one of a directory, by its end. -/
def endsInDirectory (path : String) : Bool :=
  match (pieces path).getLast? with
  | some last => last == "" || last == "."
  | none => true

/-- The file at a path relative to the directory. -/
def find? (files : Files) (path : String) : Option (List String × String) :=
  if path.startsWith "/" || endsInDirectory path then none else files.walk [] (parts path)

/-- The ending of a file's name from its last dot on; a name that only begins with a dot has
none. -/
def suffix (name : String) : String :=
  let ending := (name.toList.reverse.takeWhile (· != '.')).reverse
  if ending.length + 1 < name.length && !ending.isEmpty then String.ofList ('.' :: ending) else ""

def normalizeBreaks : List Char → List Char
  | '\r' :: '\n' :: rest => '\n' :: normalizeBreaks rest
  | '\r' :: rest => '\n' :: normalizeBreaks rest
  | c :: rest => c :: normalizeBreaks rest
  | [] => []

def lines (text : String) : String := String.ofList (normalizeBreaks text.toList)

end Files

end SassData
