import PklBindings.Member.Dataclass
import PklBindings.Member.Enumeration

/-!
# Members of declarations

The member of a declaration, by the kind of the declaration.
-/

namespace PklBindings.Member

/-- The member of a declaration at a position of its module. -/
def ofDeclaration (d : Declaration) (position : Nat) (target : Target) :
    Except GenerationError Member :=
  match d.kind with
  | .typeAlias => ofTypeAlias d position target
  | .enumeration => ofEnumeration d position target
  | .moduleClass | .ordinaryClass => ofClass d position target

end PklBindings.Member
