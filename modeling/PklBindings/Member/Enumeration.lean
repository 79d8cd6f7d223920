import PklBindings.Member.TypeAlias

/-!
# Members for enumerations

An enumeration becomes a class of string constants. The name of a constant is its value in upper
snake case, with a number behind it when an earlier constant has that name.
-/

namespace PklBindings

namespace EnumConstant

/-- A name with a number behind it. -/
def numbered (name : String) (k : Nat) : String :=
  name ++ "_" ++ toString k

/-- The name itself if it is free, and otherwise the name with the least number from two on that
makes it free. One number more than there are names in use is enough to try. -/
def freeName (used : List String) (name : String) : String :=
  if used.contains name then
    match (List.range' 2 (used.length + 1)).find? fun k => !used.contains (numbered name k) with
    | some k => numbered name k
    | none => name
  else name

/-- The names of constants, given the names that earlier ones took. -/
def namesFrom (used : List String) : List String → List String
  | [] => []
  | value :: values =>
    let name := freeName used (Identifier.upperSnakeCase value)
    name :: namesFrom (name :: used) values

/-- The names of the constants of an enumeration. -/
def names (values : List String) : List String :=
  namesFrom [] values

/-- The line of a constant. -/
def line (name value : String) : String :=
  name ++ " = " ++ Quoted.encode value

end EnumConstant

namespace Member

/-- The lines inside the class of an enumeration. -/
def enumerationLines (doc : Option String) (values : List String) : List String :=
  let docLines := (doc.map DocComment.docstringLines).getD []
  let placeholder := if values.isEmpty && doc.isNone then ["pass"] else []
  docLines ++ placeholder ++ List.zipWith EnumConstant.line (EnumConstant.names values) values

/-- A declaration as a class of its values. -/
def ofEnumeration (d : Declaration) (position : Nat) (target : Target) :
    Except GenerationError Member := do
  let binding ← d.bindingFor target
  return {
    name := binding.name
    kind := d.kind
    key := d.qualifiedName
    position := position
    body := ((Block.empty.addLine ("class " ++ binding.name ++ "(str, Enum):")).indent.addLines
      (enumerationLines d.doc d.values)).dedent
    units := ["from enum import Enum"] }

end Member

end PklBindings
