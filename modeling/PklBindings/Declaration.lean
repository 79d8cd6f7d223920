import PklBindings.PklType

/-!
# Declarations

What a module of a schema declares: its module class, classes, enumerations and type aliases.
-/

namespace PklBindings

/-- The four kinds of declaration. -/
inductive Declaration.Kind where
  /-- The class of the module itself. -/
  | moduleClass
  | ordinaryClass
  | enumeration
  | typeAlias
  deriving DecidableEq, Repr

namespace Declaration.Kind

/-- The word for a kind. -/
def name : Declaration.Kind → String
  | moduleClass => "module"
  | ordinaryClass => "class"
  | enumeration => "enum"
  | typeAlias => "typealias"

/-- The kind of a word. -/
def ofName? (word : String) : Option Declaration.Kind :=
  [moduleClass, ordinaryClass, enumeration, typeAlias].find? (·.name = word)

/-- A kind is found again under its own word. -/
theorem ofName?_name (kind : Declaration.Kind) : ofName? kind.name = some kind := by
  cases kind <;> rfl

/-- Whether declarations of the kind may name a superclass. -/
def mayInherit : Declaration.Kind → Bool
  | moduleClass | ordinaryClass => true
  | enumeration | typeAlias => false

end Declaration.Kind

/-- A property of a class. -/
structure Property where
  name : String
  type : PklType := .missing
  doc : Option String := none
  /-- A hidden property has no field in the generated class. -/
  hidden : Bool := false
  location : Location := {}
  deriving Repr

/-- One declaration of a module. Properties belong to classes, values to enumerations and the
aliased type to type aliases. -/
structure Declaration where
  kind : Declaration.Kind
  name : String
  moduleName : String
  location : Location := {}
  doc : Option String := none
  superclass : Option String := none
  properties : List Property := []
  values : List String := []
  aliasedType : PklType := .missing
  deriving Repr

/-- The name by which other declarations refer to this one: the name of the module for its
module class, and otherwise the names of module and declaration with `#` between them. -/
def Declaration.qualifiedName (d : Declaration) : String :=
  match d.kind with
  | .moduleClass => d.moduleName
  | _ => d.moduleName ++ "#" ++ d.name

/-- The properties that have a field in the generated class. -/
def Declaration.visibleProperties (d : Declaration) : List Property :=
  d.properties.filter (!·.hidden)

/-- The properties that have none. -/
def Declaration.hiddenProperties (d : Declaration) : List Property :=
  d.properties.filter (·.hidden)

end PklBindings
