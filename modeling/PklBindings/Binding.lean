import PklBindings.Declaration

/-!
# Name bindings

A binding gives a declaration of the schema its Python namespace and its name there.
-/

namespace PklBindings

/-- The Python name of one declaration. -/
structure Binding where
  kind : Declaration.Kind
  /-- The qualified name of the declaration. -/
  source : String
  location : Location := {}
  /-- The Python namespace. -/
  space : String
  /-- The name within the namespace. -/
  name : String
  deriving DecidableEq, Repr

/-- The binding of a declaration that nothing else is said about: it keeps its name, and a
module class is called `ModuleClass`. -/
def Binding.ofDeclaration (d : Declaration) (space : String) : Binding where
  kind := d.kind
  source := d.qualifiedName
  location := d.location
  space := space
  name :=
    match d.kind with
    | .moduleClass => "ModuleClass"
    | _ => d.name

/-- Bindings in the order in which they were given. -/
structure BindingTable where
  entries : List Binding := []
  deriving DecidableEq, Repr

namespace BindingTable

/-- The binding of a declaration; of several, the first. -/
def find? (table : BindingTable) (source : String) : Option Binding :=
  table.entries.find? (·.source = source)

/-- The bindings into a namespace, in order. -/
def inSpace (table : BindingTable) (space : String) : List Binding :=
  table.entries.filter (·.space = space)

/-- A binding that is found has the source that was asked for. -/
theorem source_of_find? {table : BindingTable} {source : String} {binding : Binding}
    (h : table.find? source = some binding) : binding.source = source := by
  simpa using List.find?_some h

end BindingTable

end PklBindings
