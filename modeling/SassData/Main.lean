import SassData.Command.Run

/-!
# The program

The files below the working directory are read first; everything else is decided by `Command.run`.
-/

set_option autoImplicit false

/-- The texts of the files below the working directory that can be read as text. -/
def SassData.snapshot : IO SassData.Files := do
  let root ← IO.currentDir
  let start := root.toString.length + 1
  let mut files : SassData.Files := []
  for path in ← root.walkDir do
    try
      let text ← IO.FS.readFile path
      files := ((path.toString.drop start).toString, text) :: files
    catch _ => pure ()
  return files

def main (arguments : List String) : IO UInt32 := do
  let report := SassData.Command.run (← SassData.snapshot) arguments
  IO.print report.output
  IO.eprint report.errors
  match report.failure with
  | some failure => IO.eprintln failure.message
  | none => pure ()
  return report.code.toUInt32
