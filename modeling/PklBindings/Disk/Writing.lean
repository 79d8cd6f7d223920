import PklBindings.Disk.FileSystem
import PklBindings.Disk.Path
import PklBindings.Options

/-!
# Writing files

A generated file is put on the disk under a policy. A file that is in the way is removed first,
since generated files cannot be written to.
-/

namespace PklBindings

/-- Why a file is not written. -/
inductive WriteError where
  /-- Its directory cannot be created. -/
  | noDirectory (directory : String)
  /-- It is not known whether something is in the way. -/
  | unknownStatus (path : String)
  /-- Something is in the way and has to stay. -/
  | inTheWay (path : String)
  /-- Something is in the way and cannot be removed. -/
  | notRemoved (path : String)
  | notOpened (path : String)
  /-- The access rights cannot be set. -/
  | noMode (path : String)
  deriving DecidableEq, Repr

/-- The reason in words; a path is shown up to its first NUL. -/
def WriteError.message : WriteError → String
  | noDirectory directory => "failed to create output directory " ++ Text.untilNul directory
  | unknownStatus path => "failed to stat output path " ++ Text.untilNul path
  | inTheWay path => "refusing to overwrite existing output file: " ++ Text.untilNul path
  | notRemoved path => "failed to remove existing output file " ++ Text.untilNul path
  | notOpened path => "failed to open " ++ Text.untilNul path
  | noMode path => "failed to set mode on " ++ Text.untilNul path

/-- The bits of a file mode that count. -/
def WritePolicy.accessRights (policy : WritePolicy) : UInt32 :=
  policy.fileMode &&& 0o777

namespace FileSystem

variable {m : Type → Type} [Monad m] [FileSystem m]

/-- The directories to create so that `path` becomes one, from the top; `above` are the paths
above it. A path that ends in dots is none of them. There is no answer when something else than a
directory is in the way. -/
def missingDirectories (path : String) : (above : List String) → m (Option (List String))
  | [] => return some (wanted path)
  | up :: above => do
    match ← status up with
    | .directory => return some (wanted path)
    | .file | .unknown => return none
    | .nothing => return (← missingDirectories up above).map (· ++ wanted path)
where
  /-- The path itself, unless its last name is of dots. -/
  wanted (path : String) : List String :=
    if DiskPath.isDots (DiskPath.lastName path) then [] else [path]

/-- Creates directories in order, up to the first that cannot be created. -/
def createAll : List String → m Bool
  | [] => return true
  | path :: paths => do
    if ← createDirectory path then createAll paths else return false

/-- The greatest number of directories that are created for one path. -/
def maxMissing : Nat := 1000

/-- Creates a directory and all that are missing above it, or none if they are too many. -/
def createDirectories (path : String) : m Bool := do
  match ← status path with
  | .directory => return true
  | .file | .unknown => return false
  | .nothing =>
    match ← missingDirectories path (DiskPath.ancestors path) with
    | none => return false
    | some missing => if missing.length ≤ maxMissing then createAll missing else return false

/-- Creates the directory that a file goes to, if its path names one. -/
def makeRoom (path : String) : ExceptT WriteError m Unit := do
  let directory := DiskPath.parent path
  unless directory = "" do
    unless ← (createDirectories directory : m Bool) do throw (.noDirectory directory)

/-- Removes what is in the way of a file. -/
def clearWay (policy : WritePolicy) (path : String) : ExceptT WriteError m Unit := do
  match ← (status path : m PathStatus) with
  | .nothing => pure ()
  | .unknown => throw (.unknownStatus path)
  | .file | .directory =>
    if policy.noOverwrite then throw (.inTheWay path)
    unless ← (remove path : m Bool) do throw (.notRemoved path)

/-- Writes a file under a policy. -/
def writeFile (policy : WritePolicy) (path text : String) : ExceptT WriteError m Unit := do
  unless policy.dryRun do
    makeRoom path
    clearWay policy path
    unless ← (writeText path text : m Bool) do throw (.notOpened path)
    unless ← (setMode path policy.accessRights : m Bool) do throw (.noMode path)

/-- The path under which an output is recorded, from the root of the file system and without dots.
The directory that relative paths are taken from is assumed to stay. Once it is gone a relative path
is recorded as a relative one without dots, which is left out here. -/
def recordedPath (path : String) : m String := do
  return DiskPath.resolve (← currentDirectory) path

/-- Writes files in order, up to the first that cannot be written. Every file that is tried is
recorded. -/
def writeFiles (policy : WritePolicy) :
    List (String × String) → m (List String × Except WriteError Unit)
  | [] => return ([], .ok ())
  | (path, text) :: files => do
    let place ← recordedPath path
    match ← (writeFile policy path text).run with
    | .error e => return ([place], .error e)
    | .ok _ =>
      let (places, result) ← writeFiles policy files
      return (place :: places, result)

end FileSystem

end PklBindings
