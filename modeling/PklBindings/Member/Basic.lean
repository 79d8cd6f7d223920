import PklBindings.Block
import PklBindings.Declaration

/-!
# Members

The Python text of one declaration, before it takes its place in a module.
-/

namespace PklBindings

/-- A generated top-level declaration. -/
structure Member where
  /-- The name that it binds. -/
  name : String
  kind : Declaration.Kind
  /-- The qualified name of the declaration behind it. -/
  key : String
  body : Block := .empty
  /-- Text that the module needs once at its head, such as imports. -/
  units : List String := []
  /-- The qualified name of the superclass. -/
  superclass : Option String := none
  /-- The position of the declaration in its module. -/
  position : Nat := 0
  deriving Repr

namespace Member

/-- Whether the member is the module class. -/
def isModuleClass (m : Member) : Bool :=
  m.kind = .moduleClass

/-- Whether the member is a type alias. -/
def isTypeAlias (m : Member) : Bool :=
  m.kind = .typeAlias

end Member

end PklBindings
