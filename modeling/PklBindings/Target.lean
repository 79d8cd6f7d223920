import PklBindings.Binding
import PklBindings.ModuleName

/-!
# Targets

The namespace that is being written, and all that its text depends on apart from the declarations.
-/

namespace PklBindings

/-- A namespace to write, the names of all declarations, and the layout. -/
structure Target where
  space : String
  bindings : BindingTable
  /-- What stands for one level of indentation. -/
  indentUnit : String := "    "
  /-- The suffix of the names by which namespaces are imported. -/
  fileSuffix : String := "pkl"

namespace Target

/-- Whether a binding leads into another namespace. -/
def isForeign (target : Target) (b : Binding) : Bool :=
  b.space ≠ target.space

/-- The name by which a namespace is imported. -/
def importName (target : Target) (space : String) : String :=
  ModuleName.importName space target.fileSuffix

/-- The line that imports the module of a namespace. -/
def importLine (target : Target) (space : String) : String :=
  "import " ++ target.importName space

/-- How a bound declaration is spelt in the namespace being written: by its name, and if it
belongs to another namespace, behind the name by which that one is imported. -/
def spelling (target : Target) (b : Binding) : String :=
  if target.isForeign b then target.importName b.space ++ "." ++ b.name else b.name

/-- The foreign namespaces behind references, each once, in order of first occurrence.
References without a binding count for nothing. -/
def foreignSpaces (target : Target) (refs : List String) : List String :=
  (((refs.filterMap target.bindings.find?).filter target.isForeign).map (·.space)).eraseDups

end Target

end PklBindings
