import PklBindings.Member.TypeAlias

/-!
# Members for classes

A class becomes a dataclass: its documentation, a field for each visible property under the
documentation of that property, and the attribute that registers the class under its qualified
name. No two properties share a field, and none has the field of that attribute.
-/

namespace PklBindings

/-- A field of a dataclass and the property behind it. -/
structure DataField where
  name : String
  property : Property
  annotation : String

namespace DataField

/-- The attribute that holds the qualified name of the class. -/
def registration : String := "_registered_identifier"

/-- The field of a property in the class `key`, after the fields `earlier`. -/
def ofProperty (key : String) (target : Target) (earlier : List DataField) (p : Property) :
    Except GenerationError DataField :=
  let field := Identifier.ofText p.name
  if field = registration then .error (.reservedField p.location p.name key field)
  else
    match earlier.find? (·.name = field) with
    | some other =>
      .error (.sharedField p.location p.name key field other.property.name
        other.property.location)
    | none => do
      let annotation ← p.type.requireAnnotation (.untypedProperty p.location p.name) target
      return ⟨field, p, annotation⟩

/-- The fields of properties in the class `key`, after the fields `earlier`. -/
def ofProperties (key : String) (target : Target) (earlier : List DataField) :
    List Property → Except GenerationError (List DataField)
  | [] => .ok []
  | p :: ps => do
    let field ← ofProperty key target earlier p
    let fields ← ofProperties key target (earlier ++ [field]) ps
    return field :: fields

/-- The lines of a field: the documentation of its property and its annotation. -/
def lines (field : DataField) : List String :=
  (field.property.doc.map DocComment.commentLines).getD [] ++
    [field.name ++ ": " ++ field.annotation]

end DataField

namespace Member

/-- The Python name of the superclass of a declaration, if it has one. -/
def superclassBinding (d : Declaration) (target : Target) :
    Except GenerationError (Option Binding) :=
  match d.superclass with
  | none => .ok none
  | some ref =>
    match target.bindings.find? ref with
    | none => .error (.unboundSuperclass d.location ref d.qualifiedName)
    | some binding => .ok (some binding)

/-- The superclass in parentheses, if there is one. -/
def superclassClause (target : Target) : Option Binding → String
  | none => ""
  | some binding => "(" ++ target.spelling binding ++ ")"

/-- The namespace of the superclass, if it is a foreign one. -/
def superclassSpaces (target : Target) : Option Binding → List String
  | none => []
  | some binding => if target.isForeign binding then [binding.space] else []

/-- The lines inside a dataclass. -/
def dataclassLines (key : String) (doc : Option String) (fields : List DataField) :
    List String :=
  let docLines := (doc.map DocComment.docstringLines).getD []
  let gap := if fields.isEmpty && doc.isNone then [] else [""]
  docLines ++ fields.flatMap DataField.lines ++ gap ++
    [DataField.registration ++ " = " ++ Quoted.encode key]

/-- A declaration as a dataclass of its visible properties. -/
def ofClass (d : Declaration) (position : Nat) (target : Target) :
    Except GenerationError Member := do
  let binding ← d.bindingFor target
  let superclass ← superclassBinding d target
  let key := d.qualifiedName
  let fields ← DataField.ofProperties key target [] d.visibleProperties
  let header := "class " ++ binding.name ++ superclassClause target superclass ++ ":"
  let spaces := superclassSpaces target superclass ++
    fields.flatMap fun field => field.property.type.foreignSpaces target
  return {
    name := binding.name
    kind := d.kind
    key := key
    position := position
    superclass := d.superclass
    body := ((Block.empty.addLines ["@dataclass", header]).indent.addLines
      (dataclassLines key d.doc fields)).dedent
    units := target.importLines spaces }

end Member

end PklBindings
