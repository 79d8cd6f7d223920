import PklBindings.Json.Basic
import PklBindings.PklType

/-!
# The grammar of schema documents

What a value has to look like to be a schema document (`Json.IsSchema`), said of the value alone:
which members its objects have to have, may have and must not have, and of what form each of them
is. A member that may be left out may be null only where the grammar says so.
-/

namespace PklBindings

namespace Json

/-! ## Forms of values -/

/-- A string. -/
def IsText (json : Json) : Prop :=
  ∃ s, json = .string s

/-- One of the words. -/
def IsWord (words : List String) (json : Json) : Prop :=
  ∃ word ∈ words, json = .string word

/-- A truth value. -/
def IsFlag (json : Json) : Prop :=
  ∃ flag, json = .bool flag

/-- Null, or a value of the form. -/
def IsNullOr (form : Json → Prop) (json : Json) : Prop :=
  json = .null ∨ form json

/-- An array of values of the form. -/
def IsArrayOf (form : Json → Prop) (json : Json) : Prop :=
  ∃ items, json = .array items ∧ ∀ item ∈ items, form item

/-- An object with members of the form. -/
def IsObject (form : Members → Prop) (json : Json) : Prop :=
  ∃ members, json = .object members ∧ form members

namespace Members

/-- There is a member of the name, and it is of the form. -/
def Has (members : Members) (name : String) (form : Json → Prop) : Prop :=
  ∃ json, members.get? name = some json ∧ form json

/-- If there is a member of the name, it is of the form. -/
def MayHave (members : Members) (name : String) (form : Json → Prop) : Prop :=
  ∀ json, members.get? name = some json → form json

/-- There is no member of the name. -/
def Lacks (members : Members) (name : String) : Prop :=
  members.get? name = none

end Members

/-! ## Locations -/

/-- A number that counts as an integer from one on and fits into 32 bits. -/
def IsPosition (json : Json) : Prop :=
  ∃ n, json.integer? = some n ∧ 1 ≤ n ∧ n < 0x100000000

/-- The members of a location. -/
structure LocationForm (members : Members) : Prop where
  line : members.MayHave "line" IsPosition
  column : members.MayHave "column" IsPosition

/-- A location. -/
def IsLocation : Json → Prop :=
  IsObject LocationForm

/-! ## Types -/

/-- The members of a type of each kind, where `isPart` says which values its parts may be. -/
inductive TypeForm (isPart : Json → Prop) (members : Members) : Prop where
  | primitive (kind : members.Has "kind" (IsWord ["primitive"]))
    (name : members.Has "name" (IsWord (Primitive.names.map Prod.fst)))
  | nullable (kind : members.Has "kind" (IsWord ["nullable"]))
    (inner : members.Has "inner" isPart)
  | union (kind : members.Has "kind" (IsWord ["union"]))
    (parts : members.MayHave "members" (IsArrayOf isPart))
  | declared (kind : members.Has "kind" (IsWord ["declared"]))
    (ref : members.Has "ref" IsText)
  | literal (kind : members.Has "kind" (IsWord ["stringLiteral"]))
    (value : members.Has "value" IsText)
  | generic (kind : members.Has "kind" (IsWord ["generic"]))
    (base : members.Has "base" isPart)
    (arguments : members.MayHave "arguments" (IsArrayOf isPart))
  | function (kind : members.Has "kind" (IsWord ["function"]))
    (parameters : members.MayHave "parameters" (IsArrayOf isPart))
    (result : members.Has "result" isPart)
  | unsupported (kind : members.Has "kind" (IsWord ["unsupported"]))
    (display : members.Has "display" IsText)

/-- A type whose parts lie at most `depth` deep, the type itself being at depth zero. -/
def IsTypeWithin : (depth : Nat) → Json → Prop
  | 0 => IsObject fun members =>
    members.MayHave "location" IsLocation ∧ TypeForm (fun _ => False) members
  | depth + 1 => IsObject fun members =>
    members.MayHave "location" IsLocation ∧ TypeForm (IsTypeWithin depth) members

/-- A type. Its parts lie at most 256 deep. -/
def IsType : Json → Prop :=
  IsTypeWithin 256

/-! ## Declarations -/

/-- The members of a property. -/
structure PropertyForm (members : Members) : Prop where
  name : members.Has "name" IsText
  type : members.Has "type" IsType
  doc : members.MayHave "doc" (IsNullOr IsText)
  hidden : members.MayHave "hidden" IsFlag
  location : members.MayHave "location" IsLocation

/-- A property of a class. -/
def IsProperty : Json → Prop :=
  IsObject PropertyForm

/-- A word for a kind of declaration. -/
def IsKind : Json → Prop :=
  IsWord ["module", "class", "enum", "typealias"]

/-- The members of a declaration. Only classes name a superclass, and type aliases and no other
declarations have an aliased type. -/
structure DeclarationForm (members : Members) : Prop where
  kind : members.Has "kind" IsKind
  name : members.Has "name" IsText
  location : members.MayHave "location" IsLocation
  doc : members.MayHave "doc" (IsNullOr IsText)
  superclass : members.MayHave "superclass" (IsNullOr IsText)
  kind_of_superclass : members.Has "superclass" IsText →
    members.Has "kind" (IsWord ["module", "class"])
  properties : members.MayHave "properties" (IsArrayOf IsProperty)
  values : members.MayHave "values" (IsArrayOf IsText)
  aliasedType : members.Has "kind" (IsWord ["typealias"]) → members.Has "aliasedType" IsType
  lacks_aliasedType : members.Has "kind" (IsWord ["module", "class", "enum"]) →
    members.Lacks "aliasedType"
  pythonName : members.MayHave "pythonName" (IsNullOr IsText)

/-- A declaration. -/
def IsDeclaration : Json → Prop :=
  IsObject DeclarationForm

/-- The members of a module. -/
structure ModuleForm (members : Members) : Prop where
  name : members.Has "name" IsText
  uri : members.MayHave "uri" (IsNullOr IsText)
  space : members.MayHave "namespace" (IsNullOr IsText)
  declarations : members.MayHave "declarations" (IsArrayOf IsDeclaration)

/-- A module. -/
def IsModule : Json → Prop :=
  IsObject ModuleForm

/-! ## Bindings and schemas -/

/-- The members of a binding. -/
structure BindingForm (members : Members) : Prop where
  kind : members.Has "kind" IsKind
  source : members.Has "source" IsText
  space : members.Has "namespace" IsText
  name : members.Has "name" IsText
  location : members.MayHave "location" IsLocation

/-- A binding. -/
def IsBinding : Json → Prop :=
  IsObject BindingForm

/-- A value with this source. -/
def HasSource (source : String) : Json → Prop :=
  IsObject fun members => members.Has "source" (IsWord [source])

/-- An array of bindings, no two of which have one source. -/
def IsBindingArray (json : Json) : Prop :=
  ∃ items, json = .array items ∧ (∀ item ∈ items, IsBinding item) ∧
    items.Pairwise fun a b => ∀ source, HasSource source a → ¬ HasSource source b

/-- The members of a schema document. -/
structure SchemaForm (members : Members) : Prop where
  modules : members.Has "modules" fun json => IsArrayOf IsModule json ∧ json ≠ .array []
  bindings : members.MayHave "mappings" IsBindingArray

/-- A schema document. -/
def IsSchema : Json → Prop :=
  IsObject SchemaForm

end Json

end PklBindings
