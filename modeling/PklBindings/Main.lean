import PklBindings.CommandLine
import PklBindings.TextReader.Strict

/-!
# The program

The command line on the file system of the machine.
-/

namespace PklBindings.Machine

/-- Whether an action is done. -/
def succeeds (action : IO Unit) : IO Bool := do
  try
    action
    return true
  catch _ =>
    return false

/-- Tries to open a file for reading. -/
def open? (path : String) : IO Unit := do
  let _ ← IO.FS.Handle.mk path .read

/-- What a path leads to. A directory is what has an entry for itself. -/
def statusOf (path : String) : IO PathStatus := do
  if path = "" then return .nothing
  if ← succeeds (open? (path ++ "/.")) then return .directory
  try
    open? path
    return .file
  catch
    | .permissionDenied .. => return .file
    | .noFileOrDirectory .. | .inappropriateType .. => return .nothing
    | _ => return .unknown

/-- One third of a file mode. -/
def accessRight (bits : UInt32) : IO.AccessRight where
  read := bits &&& 4 ≠ 0
  write := bits &&& 2 ≠ 0
  execution := bits &&& 1 ≠ 0

/-- The three thirds of a file mode. -/
def fileRight (mode : UInt32) : IO.FileRight where
  user := accessRight (mode >>> 6)
  group := accessRight (mode >>> 3)
  other := accessRight mode

/-- The text of a file; a directory has the empty text. -/
def readText? (path : String) : IO (Option String) := do
  if (← statusOf path) = .directory then return some ""
  try
    return some (← IO.FS.readFile path)
  catch _ =>
    return none

/-- Creates a directory, unless it is there already. -/
def makeDirectory (path : String) : IO Bool := do
  if ← succeeds (IO.FS.createDir path) then return true
  return (← statusOf path) = .directory

/-- Removes a file or an empty directory. -/
def removeEntry (path : String) : IO Bool := do
  if (← statusOf path) = .directory then succeeds (IO.FS.removeDir path)
  else succeeds (IO.FS.removeFile path)

instance : FileSystem IO where
  currentDirectory := do return (← IO.currentDir).toString
  status path := statusOf (Text.untilNul path)
  readText path := readText? (Text.untilNul path)
  createDirectory path := makeDirectory (Text.untilNul path)
  remove path := removeEntry (Text.untilNul path)
  writeText path text := succeeds (IO.FS.writeFile (Text.untilNul path) text)
  setMode path mode := succeeds (IO.setAccessRights (Text.untilNul path) (fileRight mode))

/-- The line on the time that a run took. -/
def elapsedLine (milliseconds : Nat) : String :=
  let rest := toString (milliseconds % 1000)
  let zeros := String.ofList (List.replicate (3 - rest.length) '0')
  "  elapsed: " ++ toString (milliseconds / 1000) ++ "." ++ zeros ++ rest ++ "s\n"

end PklBindings.Machine

/-- Runs the program, and says how long it took if it got to its end. -/
def main (arguments : List String) : IO UInt32 := do
  let start ← IO.monoMsNow
  let result ← PklBindings.CommandLine.run (m := IO) .strict arguments
  IO.eprint result.errors
  IO.print result.output
  if result.finished then
    IO.eprint (PklBindings.Machine.elapsedLine ((← IO.monoMsNow) - start))
  return result.exitCode
