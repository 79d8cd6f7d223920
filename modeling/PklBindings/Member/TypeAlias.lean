import PklBindings.DocComment
import PklBindings.GenerationError

/-!
# Members for type aliases

A type alias becomes an assignment of its annotation, under its documentation as comment lines.
-/

namespace PklBindings

/-- The Python name of a declaration. -/
def Declaration.bindingFor (d : Declaration) (target : Target) : Except GenerationError Binding :=
  match target.bindings.find? d.qualifiedName with
  | none => .error (.unbound d.location d.kind d.qualifiedName)
  | some binding => .ok binding

/-- The annotation of a type that a declaration needs; `untyped` is the error if it was left
out. -/
def PklType.requireAnnotation (type : PklType) (untyped : GenerationError) (target : Target) :
    Except GenerationError String :=
  if type.isMissing then .error untyped
  else (type.annotation target).mapError .unsupported

/-- The lines that import the modules of foreign namespaces, each line once. -/
def Target.importLines (target : Target) (spaces : List String) : List String :=
  (spaces.map target.importLine).eraseDups

namespace Member

/-- A declaration as an assignment of its aliased type. -/
def ofTypeAlias (d : Declaration) (position : Nat) (target : Target) :
    Except GenerationError Member := do
  let binding ← d.bindingFor target
  let annotation ← d.aliasedType.requireAnnotation (.untypedAlias d.location d.name) target
  let comments := (d.doc.map DocComment.commentLines).getD []
  return {
    name := binding.name
    kind := d.kind
    key := d.qualifiedName
    position := position
    body := Block.empty.addLines (comments ++ [binding.name ++ " = " ++ annotation])
    units := target.importLines (d.aliasedType.foreignSpaces target) }

end Member

end PklBindings
