import PklBindings.Text

/-!
# Paths

Paths as texts of names with slashes between them. Nothing here looks at a disk: a path is split,
joined and normalised by its spelling alone.
-/

namespace PklBindings.DiskPath

/-- The pieces between slashes. -/
def splitSlashes : List Char → List (List Char)
  | [] => [[]]
  | c :: cs =>
    if c = '/' then [] :: splitSlashes cs
    else
      match splitSlashes cs with
      | [] => [[c]]
      | piece :: pieces => (c :: piece) :: pieces

/-- The names of a path. An empty name stands before a slash at the start, between two slashes
and behind one at the end. -/
def names (path : String) : List String :=
  (splitSlashes path.toList).map .ofList

/-- Whether the path starts at the root of the disk. -/
def isAbsolute (path : String) : Bool :=
  path.toList.head? = some '/'

/-- Whether the path ends with a slash. -/
def endsWithSlash (path : String) : Bool :=
  path.toList.getLast? = some '/'

/-- Whether the name stands for the directory itself or for the one above it. -/
def isDots (name : String) : Bool :=
  name = "." || name = ".."

/-- The last name. -/
def lastName (path : String) : String :=
  .ofList (path.toList.reverse.takeWhile (· ≠ '/')).reverse

/-- The path without its last name and the slashes before it; the root of the disk is its own
parent. -/
def parent (path : String) : String :=
  let head := path.toList.reverse.dropWhile (· ≠ '/')
  match head, head.dropWhile (· = '/') with
  | _ :: _, [] => "/"
  | _, rest => .ofList rest.reverse

/-- The paths above a path, nearest first. -/
def ancestors (path : String) : List String :=
  above path.length path
where
  /-- At most `count` paths above a path. -/
  above : (count : Nat) → String → List String
    | 0, _ => []
    | count + 1, path =>
      let up := parent path
      if up = "" || up = path then [] else up :: above count up

/-- A path taken from a directory. -/
def join (directory path : String) : String :=
  if isAbsolute path || directory = "" then path
  else if endsWithSlash directory then directory ++ path
  else directory ++ "/" ++ path

/-- The names of an absolute path once the dots are followed; `..` at the root stays there. -/
def followDots : (above : List String) → List String → List String
  | above, [] => above.reverse
  | above, name :: names =>
    if name = "" || name = "." then followDots above names
    else if name = ".." then followDots above.tail names
    else followDots (name :: above) names

/-- The shortest spelling of an absolute path. A slash stays at the end where the path names a
directory by a slash or by dots. -/
def normalize (path : String) : String :=
  let last := lastName path
  let mark := if last = "" || isDots last then "/" else ""
  match followDots [] (names path) with
  | [] => "/"
  | followed => "/" ++ "/".intercalate followed ++ mark

/-- The absolute path of a path that is taken from a directory. The empty path stays empty. -/
def resolve (directory path : String) : String :=
  if path = "" then "" else normalize (join directory path)

end PklBindings.DiskPath
