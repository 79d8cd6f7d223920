import PklBindings.Binding

/-!
# Schemas

The modules of a schema and the Python names of their declarations.
-/

namespace PklBindings

/-- A module and its declarations, in order. -/
structure Module where
  name : String
  uri : String := ""
  declarations : List Declaration := []
  deriving Repr

/-- The module class of a module; of several, the first. -/
def Module.moduleClass? (m : Module) : Option Declaration :=
  m.declarations.find? (·.kind = .moduleClass)

/-- Modules in order, and the bindings of what they declare. -/
structure Schema where
  modules : List Module := []
  bindings : BindingTable := {}
  deriving Repr

end PklBindings
