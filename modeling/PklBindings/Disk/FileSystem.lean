/-!
# File systems

What the program asks of a file system. A question is asked by a path, and an action says whether
it was done.
-/

namespace PklBindings

/-- What a path leads to. -/
inductive PathStatus where
  /-- There is nothing. -/
  | nothing
  | file
  | directory
  /-- The path cannot be followed. -/
  | unknown
  deriving DecidableEq, Repr

/-- Computations with a file system. -/
class FileSystem (m : Type → Type) where
  /-- The directory that relative paths are taken from. There always is one. -/
  currentDirectory : m String
  /-- What a path leads to. -/
  status (path : String) : m PathStatus
  /-- The text of a file. A directory has the empty text. -/
  readText (path : String) : m (Option String)
  /-- Creates one directory, unless it is there already. -/
  createDirectory (path : String) : m Bool
  /-- Removes a file or an empty directory. -/
  remove (path : String) : m Bool
  /-- Gives a file a text, and creates it if need be. -/
  writeText (path text : String) : m Bool
  /-- Sets the access rights of a file. -/
  setMode (path : String) (mode : UInt32) : m Bool

end PklBindings
