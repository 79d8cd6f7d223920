import PklBindings.Json.Basic
import PklBindings.Text

/-!
# Faults of schema documents

What is wrong with a document that is no schema, and where.
-/

namespace PklBindings

/-- What is wrong at a place of a document. -/
inductive Fault where
  | notObject
  | notString
  | notArray
  | notBoolean
  | notPosition
  | missingString
  | missingModules
  | noModules
  | unknownDeclarationKind (word : String)
  | unknownTypeKind (word : String)
  | unknownPrimitive (name : String)
  | missingPart
  | missingPropertyType
  | missingAliasedType
  | strayAliasedType
  | straySuperclass
  | tooDeep
  /-- An earlier binding has the same source. -/
  | duplicateBinding (source : String) (first : Json.Path)
  deriving DecidableEq, Repr

/-- The fault in words. -/
def Fault.message : Fault → String
  | notObject => "expected an object"
  | notString => "expected a string"
  | notArray => "expected an array"
  | notBoolean => "expected a boolean"
  | notPosition => "expected a positive integer"
  | missingString => "missing required string"
  | missingModules => "missing required array"
  | noModules => "at least one module is required"
  | unknownDeclarationKind word => "unknown declaration kind '" ++ word ++ "'"
  | unknownTypeKind word => "unknown type kind '" ++ word ++ "'"
  | unknownPrimitive name => "unknown primitive type '" ++ name ++ "'"
  | missingPart => "missing nested type"
  | missingPropertyType => "missing property type"
  | missingAliasedType => "type alias requires an aliased type"
  | strayAliasedType => "only type aliases may declare an aliased type"
  | straySuperclass => "only classes may declare a superclass"
  | tooDeep => "type expression nesting is too deep"
  | duplicateBinding source first =>
    "duplicate mapping for '" ++ source ++ "' (first declared at " ++ first.render ++ ")"

/-- A fault and the way to it from the root of the document. -/
structure ReadError where
  path : Json.Path
  fault : Fault
  deriving DecidableEq, Repr

/-- The fault in words, behind the name of the document and the way to the fault. The name and
the words are shown up to their first NUL. -/
def ReadError.message (e : ReadError) (source : String) : String :=
  let place :=
    match e.path with
    | .root => ""
    | path => path.render ++ ": "
  Text.untilNul source ++ ": " ++ place ++ Text.untilNul e.fault.message

/-- The result of reading part of a document. -/
abbrev Decoded (α : Type) := Except ReadError α

/-- Reports a fault. -/
def Json.Path.fail (path : Json.Path) (fault : Fault) : Decoded α :=
  .error ⟨path, fault⟩

/-! ## Members of objects -/

namespace Json

/-- The members of a value that has to be an object. -/
def requireMembers (path : Path) (json : Json) : Decoded Members :=
  match json.members? with
  | some members => .ok members
  | none => path.fail .notObject

/-- The text of a value that has to be a string. -/
def requireText (path : Path) (json : Json) : Decoded String :=
  match json.string? with
  | some s => .ok s
  | none => path.fail .notString

namespace Members

/-- A member that has to be there and to be a string. -/
def requireString (members : Members) (path : Path) (name : String) : Decoded String :=
  match members.get? name with
  | none => (path.member name).fail .missingString
  | some json => json.requireText (path.member name)

/-- A member that may be left out or be null, and otherwise has to be a string. -/
def optionalString (members : Members) (path : Path) (name : String) :
    Decoded (Option String) :=
  match members.get? name with
  | none | some .null => .ok none
  | some json => (json.requireText (path.member name)).map some

/-- The items of a member that may be left out, and otherwise has to be an array. -/
def optionalItems (members : Members) (path : Path) (name : String) : Decoded (List Json) :=
  match members.get? name with
  | none => .ok []
  | some json =>
    match json.items? with
    | some items => .ok items
    | none => (path.member name).fail .notArray

/-- A truth value that may be left out, and then is false. -/
def optionalFlag (members : Members) (path : Path) (name : String) : Decoded Bool :=
  match members.get? name with
  | none => .ok false
  | some json =>
    match json.bool? with
    | some flag => .ok flag
    | none => (path.member name).fail .notBoolean

/-- A line or column: one if it is left out, and otherwise a positive 32-bit integer. -/
def optionalPosition (members : Members) (path : Path) (name : String) : Decoded UInt32 :=
  match members.get? name with
  | none => .ok 1
  | some json =>
    match json.integer? with
    | some n =>
      if 1 ≤ n ∧ n < 0x100000000 then .ok (.ofNat n.toNat) else (path.member name).fail .notPosition
    | none => (path.member name).fail .notPosition

end Members

/-- Reads every item of an array, with the way to it. -/
def readItems [Monad m] (path : Path) (items : List Json) (read : Path → Json → m α) :
    m (List α) :=
  items.zipIdx.mapM fun (json, index) => read (path.item index) json

end Json

end PklBindings
