import PklBindings.Identifier

/-!
# Names of Python modules

The module that a namespace is written to, and the file that holds it.
-/

namespace PklBindings.ModuleName

/-- The name by which a namespace is imported: its identifier and, unless it is empty, the
suffix. -/
def importName (space suffix : String) : String :=
  if suffix = "" then Identifier.ofText space else Identifier.ofText space ++ "_" ++ suffix

/-- The file of a namespace. -/
def fileName (space suffix : String) : String :=
  importName space suffix ++ ".py"

end PklBindings.ModuleName
