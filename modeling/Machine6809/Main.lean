import Machine6809.CommandLine.Program

/-!
# Entry point

The files that the arguments name are read first; all else is `CommandLine.run`.
-/

namespace Machine6809

open CommandLine

/-- Why the system could not read a file. -/
def systemError : IO.Error → FileError
  | .noFileOrDirectory _ number reason => .ofNumber number reason
  | .inappropriateType _ number reason => .ofNumber number reason
  | .invalidArgument _ number reason => .ofNumber number reason
  | .permissionDenied _ number reason => .ofNumber number reason
  | error => .other (toString error)

/-- The text of a file on disk. -/
def readFile (path : String) : IO (Except FileError String) := do
  try
    return decodeText (← IO.FS.readBinFile path)
  catch error =>
    return .error (systemError error)

/-- The texts of the files that a command line names. -/
def readFiles (args : List String) : IO (List (String × Except FileError String)) :=
  match Arguments.read args with
  | .ok arguments => arguments.files.mapM fun path => return (path, ← readFile path)
  | .error _ => return []

/-- More steps than any run lives to see. -/
def stepBound : Nat := 0x4000000000000000

end Machine6809

open Machine6809

/-- The command line program. -/
def main (args : List String) : IO UInt32 := do
  let texts ← readFiles args
  let read := fun path => (texts.lookup path).getD (.error .notFound)
  match CommandLine.run read stepBound args with
  | some report =>
    IO.print report.output
    return UInt32.ofNat report.status
  | none => return 1
