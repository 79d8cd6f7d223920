import PklBindings.Disk.FileSystem
import PklBindings.Disk.Path

/-!
# Disks

A file system as a value: a tree of directories and files, without links. A place is the list of
names from the root of the disk. Paths are followed name by name, so every name but the last has
to be that of a directory.
-/

namespace PklBindings

/-- A file, or a directory with what is in it. -/
inductive DiskEntry where
  | file (text : String) (mode : UInt32)
  | directory (entries : List (String × DiskEntry))
  deriving Repr, Inhabited

/-- The names from the root of the disk. -/
abbrev Place := List String

/-- What is in a directory, by name. -/
abbrev Folder := List (String × DiskEntry)

namespace Folder

/-- Puts an entry under a name. -/
def put (folder : Folder) (name : String) (entry : DiskEntry) : Folder :=
  (name, entry) :: folder.filter (·.1 ≠ name)

/-- Takes away the entry under a name. -/
def drop (folder : Folder) (name : String) : Folder :=
  folder.filter (·.1 ≠ name)

/-- What stands at a place, counted from this directory. -/
def at? : Folder → Place → Option DiskEntry
  | folder, [] => some (.directory folder)
  | folder, name :: rest =>
    match folder.lookup name with
    | none => none
    | some (.directory inner) => at? inner rest
    | some (.file text mode) => if rest = [] then some (.file text mode) else none

/-- Changes the directory that holds the last name of a place. Nothing happens where there is no
such directory. -/
def alter (change : Folder → String → Folder) : Folder → Place → Folder
  | folder, [] => folder
  | folder, [name] => change folder name
  | folder, name :: next :: rest =>
    match folder.lookup name with
    | some (.directory inner) => folder.put name (.directory (alter change inner (next :: rest)))
    | _ => folder

end Folder

/-- A tree of files, and the directory that relative paths are taken from. That directory is assumed
to stay: its path is known also when there is nothing at its place any more. -/
structure Disk where
  workPlace : Place := []
  root : Folder := []
  deriving Repr

/-- Where a path leads. -/
inductive Found where
  /-- To something. -/
  | entry (place : Place) (entry : DiskEntry)
  /-- To a name that is free in its directory. -/
  | free (place : Place)
  /-- Nowhere: a directory on the way is missing or is none. -/
  | nowhere
  /-- The path or a name in it is too long. -/
  | tooLong
  deriving Repr

namespace Disk

/-- The greatest length of a name in bytes. -/
def maxNameLength : Nat := 255

/-- The greatest length of a path in bytes. -/
def maxPathLength : Nat := 4095

/-- The access rights of a file before they are set. -/
def defaultMode : UInt32 := 0o644

/-- What stands at a place. -/
def at? (disk : Disk) (place : Place) : Option DiskEntry :=
  disk.root.at? place

/-- Puts something at a place, in a directory that is there. -/
def insert (disk : Disk) (place : Place) (entry : DiskEntry) : Disk :=
  { disk with root := disk.root.alter (fun folder name => folder.put name entry) place }

/-- Takes away what stands at a place. -/
def erase (disk : Disk) (place : Place) : Disk :=
  { disk with root := disk.root.alter (fun folder name => folder.drop name) place }

/-- The place of the directory that was entered along a trail: the names of the directories, the
innermost first, each with what the directory around it holds. -/
def placeOf (trail : List (String × Folder)) : Place :=
  (trail.map (·.1)).reverse

/-- Follows names from a directory that was entered along a trail. -/
def follow : (trail : List (String × Folder)) → (here : Folder) → List String → Found
  | trail, here, [] => .entry (placeOf trail) (.directory here)
  | trail, here, name :: names =>
    if name = "" || name = "." then follow trail here names
    else if name = ".." then
      match trail with
      | [] => follow [] here names
      | (_, around) :: trail => follow trail around names
    else if maxNameLength < name.utf8ByteSize then .tooLong
    else
      match here.lookup name with
      | none => if names.all (· = "") then .free (placeOf trail ++ [name]) else .nowhere
      | some (.file text mode) =>
        if names.isEmpty then .entry (placeOf trail ++ [name]) (.file text mode) else .nowhere
      | some (.directory inner) => follow ((name, here) :: trail) inner names

/-- The names that lead from the root of the disk to where a path leads. -/
def namesFromRoot (disk : Disk) (path : String) : List String :=
  if DiskPath.isAbsolute path then DiskPath.names path
  else disk.workPlace ++ DiskPath.names path

/-- Where a path leads. Only the part before its first NUL is looked at. -/
def find (disk : Disk) (path : String) : Found :=
  let path := Text.untilNul path
  if path = "" then .nowhere
  else if maxPathLength < path.utf8ByteSize then .tooLong
  else follow [] disk.root (disk.namesFromRoot path)

/-- What a path leads to. -/
def status (disk : Disk) (path : String) : PathStatus :=
  match disk.find path with
  | .entry _ (.file _ _) => .file
  | .entry _ (.directory _) => .directory
  | .free _ | .nowhere => .nothing
  | .tooLong => .unknown

/-- The text of a file; a directory has the empty text. -/
def readText (disk : Disk) (path : String) : Option String :=
  match disk.find path with
  | .entry _ (.file text _) => some text
  | .entry _ (.directory _) => some ""
  | _ => none

/-- Creates a directory at a free name, unless it is there already. -/
def createDirectory (disk : Disk) (path : String) : Bool × Disk :=
  match disk.find path with
  | .entry _ (.directory _) => (true, disk)
  | .free place => (true, disk.insert place (.directory []))
  | _ => (false, disk)

/-- Whether a path names a directory by dots. -/
def endsInDots (path : String) : Bool :=
  ((DiskPath.names (Text.untilNul path)).filter (· ≠ "")).getLast?.any DiskPath.isDots

/-- Whether a directory may be removed by a path: it is empty, it is not the root of the disk,
and it is not named by dots. -/
def mayRemove (path : String) (place : Place) (entries : Folder) : Bool :=
  !place.isEmpty && entries.isEmpty && !endsInDots path

/-- Removes a file or an empty directory. -/
def remove (disk : Disk) (path : String) : Bool × Disk :=
  match disk.find path with
  | .entry place (.file _ _) => (true, disk.erase place)
  | .entry place (.directory entries) =>
    if mayRemove path place entries then (true, disk.erase place) else (false, disk)
  | _ => (false, disk)

/-- Gives a file a text; a file that is not there yet is created at a free name. A path that
ends with a slash names no file. -/
def writeText (disk : Disk) (path text : String) : Bool × Disk :=
  match disk.find path with
  | .entry place (.file _ mode) => (true, disk.insert place (.file text mode))
  | .free place =>
    if DiskPath.endsWithSlash (Text.untilNul path) then (false, disk)
    else (true, disk.insert place (.file text defaultMode))
  | _ => (false, disk)

/-- Sets the access rights of a file. -/
def setMode (disk : Disk) (path : String) (mode : UInt32) : Bool × Disk :=
  match disk.find path with
  | .entry place (.file text _) => (true, disk.insert place (.file text mode))
  | .entry _ (.directory _) => (true, disk)
  | _ => (false, disk)

/-- The absolute path of a place. -/
def pathOf (place : Place) : String :=
  "/" ++ "/".intercalate place

instance : FileSystem (StateM Disk) where
  currentDirectory := do return pathOf (← get).workPlace
  status path := do return (← get).status path
  readText path := do return (← get).readText path
  createDirectory path disk := disk.createDirectory path
  remove path disk := disk.remove path
  writeText path text disk := disk.writeText path text
  setMode path mode disk := disk.setMode path mode

end Disk

end PklBindings
