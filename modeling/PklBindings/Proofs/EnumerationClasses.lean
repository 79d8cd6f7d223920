import PklBindings.Proofs.ClassAttributes

/-!
# The class of an enumeration

A bound enumeration always becomes a class. Behind its documentation the class has one constant for
each value, in the order of the values, and nothing else; without values and documentation it has
the statement `pass` (`Member.enumeration_has_constants`).
-/

namespace PklBindings.Member

/-- The class of a bound enumeration has one constant for each value. -/
theorem enumeration_has_constants {d : Declaration} {target : Target} {b : Binding}
    (hbound : target.bindings.find? d.qualifiedName = some b) (position : Nat) :
    ∃ m names, ofEnumeration d position target = .ok m ∧
      m.body.lines.toList = Block.layers ["class " ++ b.name ++ "(str, Enum):"]
        (DocComment.classLines d.doc ++
          (if d.values.isEmpty && d.doc.isNone then ["pass"] else []) ++
          List.zipWith (fun name value => name ++ " = " ++ Quoted.encode value) names d.values) ∧
      EnumConstant.AreNames d.values names := by
  have hbinding := Declaration.bindingFor_eq_ok_iff.2 hbound
  refine ⟨_, EnumConstant.names d.values, bind_eq_ok_iff.2 ⟨b, hbinding, rfl⟩, ?_,
    EnumConstant.areNames_names d.values⟩
  exact Block.lines_layers ["class " ++ b.name ++ "(str, Enum):"] (enumerationLines d.doc d.values)

/-- An enumeration whose values have one name among four of them. -/
def crowdedEnumeration : Declaration where
  kind := .enumeration
  name := "E"
  moduleName := "m"
  values := ["a-b", "A b", "a_b_2", "aB", "", "class", "9Lives"]

/-- The namespace of that enumeration. -/
def crowdedTarget : Target where
  space := "m"
  bindings := ⟨[{ kind := .enumeration, source := "m#E", space := "m", name := "E" }]⟩

/-- A number leads to the name of a later value, and that value gets another number. -/
example : EnumConstant.names crowdedEnumeration.values =
    ["A_B", "A_B_2", "A_B_2_2", "A_B_3", "_", "CLASS_", "_9_LIVES"] := by
  decide

theorem enumeration_has_constants_crowdedEnumeration :
    ∃ b, crowdedTarget.bindings.find? crowdedEnumeration.qualifiedName = some b ∧
      ∃ m names, ofEnumeration crowdedEnumeration 0 crowdedTarget = .ok m ∧
        m.body.lines.toList = Block.layers ["class " ++ b.name ++ "(str, Enum):"]
          (DocComment.classLines none ++ [] ++
            List.zipWith (fun name value => name ++ " = " ++ Quoted.encode value) names
              crowdedEnumeration.values) ∧
        EnumConstant.AreNames crowdedEnumeration.values names :=
  ⟨_, rfl, enumeration_has_constants rfl 0⟩

end PklBindings.Member
