/-!
# Source locations

Where a construct stands in its source: a file and a position that counts lines and columns
from one.
-/

namespace PklBindings

/-- A position in a file. -/
structure Location where
  file : String := ""
  line : UInt32 := 1
  column : UInt32 := 1
  deriving DecidableEq, Repr, Inhabited

/-- The written form `file:line:column`. -/
def Location.render (location : Location) : String :=
  location.file ++ ":" ++ toString location.line.toNat ++ ":" ++ toString location.column.toNat

end PklBindings
