import PklBindings.TextReader
import PklBindings.Schema
import PklBindings.Reflection.Fault

/-!
# Reading schemas

A schema document is an object of modules with their declarations and, if it gives Python names
itself, of bindings. A document is read from the root to the leaves, and the first fault ends the
reading.

Documents may be read one after another in a session. While the modules of a document are read,
the session holds the bindings that their declarations have by default.
-/

namespace PklBindings

open Json (Path Members)

/-- How deep the parts of a type may lie, the type itself being at depth zero. -/
def PklType.maxDepth : Nat := 256

namespace Reflection

/-- The location in an object, in a file; without one, the start of the file. -/
def location (file : String) (path : Path) (members : Members) : Decoded Location :=
  match members.get? "location" with
  | none => .ok { file := file }
  | some json => do
    let path := path.member "location"
    let members ← json.requireMembers path
    let line ← members.optionalPosition path "line"
    let column ← members.optionalPosition path "column"
    return ⟨file, line, column⟩

/-! ## Types -/

/-- A type that another one needs as a part. -/
def typePart (read : Path → Json → Decoded PklType) (path : Path) (members : Members)
    (name : String) : Decoded PklType :=
  match members.get? name with
  | none => (path.member name).fail .missingPart
  | some json => read (path.member name) json

/-- The types of an array. -/
def typeParts (read : Path → Json → Decoded PklType) (path : Path) (members : Members)
    (name : String) : Decoded (List PklType) := do
  let items ← members.optionalItems path name
  Json.readItems (path.member name) items read

/-- A type of a given kind, whose parts are read by `read`. -/
def typeOfKind (read : Path → Json → Decoded PklType) (path : Path) (members : Members)
    (location : Location) : (kind : String) → Decoded PklType
  | "primitive" => do
    let name ← members.requireString path "name"
    match Primitive.ofName? name with
    | none => (path.member "name").fail (.unknownPrimitive name)
    | some type => return .primitive location type
  | "nullable" => do
    let inner ← typePart read path members "inner"
    return .nullable location inner
  | "union" => do
    let parts ← typeParts read path members "members"
    return .union location parts
  | "declared" => do
    let ref ← members.requireString path "ref"
    return .declared location ref
  | "stringLiteral" => do
    let value ← members.requireString path "value"
    return .literal location value
  | "generic" => do
    let base ← typePart read path members "base"
    let arguments ← typeParts read path members "arguments"
    return .generic location base arguments
  | "function" => do
    let parameters ← typeParts read path members "parameters"
    let result ← typePart read path members "result"
    return .function location parameters result
  | "unsupported" => do
    let spelling ← members.requireString path "display"
    return .unsupported location spelling
  | kind => (path.member "kind").fail (.unknownTypeKind kind)

/-- A type whose parts nest less than `levels` deep. -/
def typeWithin (file : String) : (levels : Nat) → Path → Json → Decoded PklType
  | 0, path, _ => path.fail .tooDeep
  | levels + 1, path, json => do
    let members ← json.requireMembers path
    let kind ← members.requireString path "kind"
    let loc ← location file path members
    typeOfKind (typeWithin file levels) path members loc kind

/-- A type. -/
def type (file : String) (path : Path) (json : Json) : Decoded PklType :=
  typeWithin file (PklType.maxDepth + 1) path json

/-! ## Declarations -/

/-- A property of a class. -/
def property (file : String) (path : Path) (json : Json) : Decoded Property := do
  let members ← json.requireMembers path
  let name ← members.requireString path "name"
  let type ←
    match members.get? "type" with
    | none => (path.member "type").fail .missingPropertyType
    | some json => type file (path.member "type") json
  let doc ← members.optionalString path "doc"
  let hidden ← members.optionalFlag path "hidden"
  let location ← location file path members
  return { name, type, doc, hidden, location }

/-- The kind of a declaration. -/
def declarationKind (path : Path) (members : Members) : Decoded Declaration.Kind := do
  let word ← members.requireString path "kind"
  match Declaration.Kind.ofName? word with
  | none => (path.member "kind").fail (.unknownDeclarationKind word)
  | some kind => return kind

/-- The superclass of a declaration of a kind. -/
def superclass (path : Path) (members : Members) (kind : Declaration.Kind) :
    Decoded (Option String) := do
  let name ← members.optionalString path "superclass"
  if name.isSome && !kind.mayInherit then (path.member "superclass").fail .straySuperclass
  else return name

/-- The aliased type of a declaration of a kind: type aliases have one, the others have none. -/
def aliasedType (file : String) (path : Path) (members : Members) (kind : Declaration.Kind) :
    Decoded PklType :=
  match kind, members.get? "aliasedType" with
  | .typeAlias, none => (path.member "aliasedType").fail .missingAliasedType
  | .typeAlias, some json => type file (path.member "aliasedType") json
  | _, none => .ok .missing
  | _, some _ => (path.member "aliasedType").fail .strayAliasedType

/-- A declaration of a module. -/
def declaration (moduleName file : String) (path : Path) (json : Json) : Decoded Declaration := do
  let members ← json.requireMembers path
  let kind ← declarationKind path members
  let name ← members.requireString path "name"
  let location ← location file path members
  let doc ← members.optionalString path "doc"
  let superclass ← superclass path members kind
  let properties ← members.optionalItems path "properties"
  let properties ← Json.readItems (path.member "properties") properties (property file)
  let values ← members.optionalItems path "values"
  let values ← Json.readItems (path.member "values") values fun path json => json.requireText path
  let aliasedType ← aliasedType file path members kind
  return { kind, name, moduleName, location, doc, superclass, properties, values, aliasedType }

/-- The Python name that a declaration asks for. -/
def requestedName (path : Path) (json : Json) : Decoded (Option String) := do
  let members ← json.requireMembers path
  members.optionalString path "pythonName"

/-! ## Bindings -/

/-- A binding that the document gives. -/
def binding (source : String) (path : Path) (json : Json) : Decoded Binding := do
  let members ← json.requireMembers path
  let kind ← declarationKind path members
  let qualifiedName ← members.requireString path "source"
  let space ← members.requireString path "namespace"
  let name ← members.requireString path "name"
  let location ← location source path members
  return ⟨kind, qualifiedName, location, space, name⟩

/-- Where the bindings of a document stand. -/
def bindingsPath : Path := .member .root "mappings"

/-- The bindings of a document, behind the bindings `earlier`. No two have one source. -/
def bindingsFrom (source : String) (earlier : List Binding) :
    List Json → Decoded (List Binding)
  | [] => .ok []
  | json :: rest => do
    let path := bindingsPath.item earlier.length
    let binding ← binding source path json
    match earlier.findIdx? (·.source = binding.source) with
    | some first =>
      (path.member "source").fail (.duplicateBinding binding.source (bindingsPath.item first))
    | none =>
      let bindings ← bindingsFrom source (earlier ++ [binding]) rest
      return binding :: bindings

/-! ## Modules and schemas -/

/-- Reading in a session, which holds the default bindings of the declarations read so far. -/
abbrev Session (α : Type) := ExceptT ReadError (StateM (List Binding)) α

/-- A declaration of a module that goes to a namespace; its default binding stays in the
session. -/
def declarationIn (moduleName file space : String) (path : Path) (json : Json) :
    Session Declaration := do
  let d ← liftExcept (declaration moduleName file path json)
  let requested ← liftExcept (requestedName path json)
  let binding := Binding.ofDeclaration d space
  modify (· ++ [{ binding with name := requested.getD binding.name }])
  return d

/-- The attributes of a module apart from its declarations: its name, its address, and the
namespace that it goes to. -/
def moduleHead (path : Path) (members : Members) : Decoded (String × String × String) := do
  let name ← members.requireString path "name"
  let uri ← members.optionalString path "uri"
  let space ← members.optionalString path "namespace"
  return (name, uri.getD "", space.getD name)

/-- A module. Its declarations stand in the file at its address or, if it has none, in the
document. -/
def moduleIn (source : String) (path : Path) (json : Json) : Session Module := do
  let members ← liftExcept (json.requireMembers path)
  let (name, uri, space) ← liftExcept (moduleHead path members)
  let items ← liftExcept (members.optionalItems path "declarations")
  let file := if uri = "" then source else uri
  let declarations ← Json.readItems (path.member "declarations") items
    (declarationIn name file space)
  return ⟨name, uri, declarations⟩

/-- The modules of a document, at least one. -/
def moduleItems (members : Members) : Decoded (List Json) :=
  let path := Path.member .root "modules"
  match members.get? "modules" with
  | none => path.fail .missingModules
  | some json =>
    match json.items? with
    | none => path.fail .notArray
    | some [] => path.fail .noModules
    | some items => .ok items

/-- The schema of a document that is called `source`. -/
def schema (source : String) (json : Json) : Session Schema := do
  set ([] : List Binding)
  let members ← liftExcept (json.requireMembers .root)
  let items ← liftExcept (moduleItems members)
  let modules ← Json.readItems (.member .root "modules") items (moduleIn source)
  match members.get? "mappings" with
  | none =>
    let derived ← getModify fun _ => []
    return ⟨modules, ⟨derived⟩⟩
  | some _ =>
    let items ← liftExcept (members.optionalItems .root "mappings")
    let bindings ← liftExcept (bindingsFrom source [] items)
    set ([] : List Binding)
    return ⟨modules, ⟨bindings⟩⟩

end Reflection

/-- Why there is no schema. -/
inductive SchemaError where
  /-- The file cannot be read. -/
  | unreadable (path : String)
  /-- The text is no JSON, and this is what its reader says of it. -/
  | malformed (source reason : String)
  /-- The document is no schema. -/
  | invalid (source : String) (error : ReadError)
  deriving DecidableEq, Repr

/-- The reason in words. -/
def SchemaError.message : SchemaError → String
  | unreadable path => "failed to read " ++ Text.untilNul path
  | malformed source reason =>
    Text.untilNul source ++ ": invalid JSON: " ++ Text.untilNul reason
  | invalid source error => error.message source

namespace Schema

/-- The schema of a document, read in a session of its own. -/
def ofJson (source : String) (json : Json) : Except SchemaError Schema :=
  ((Reflection.schema source json).run.run []).1.mapError (.invalid source)

/-- The schemas of documents, read one after another in one session. -/
def ofDocuments (source : String) (documents : List Json) : List (Except SchemaError Schema) :=
  let results : StateM (List Binding) (List (Decoded Schema)) :=
    documents.mapM fun json => (Reflection.schema source json).run
  (results.run []).1.map (·.mapError (.invalid source))

/-- The schema of a text. -/
def ofText (reader : TextReader) (source text : String) : Except SchemaError Schema :=
  match reader.json text with
  | .error reason => .error (.malformed source reason)
  | .ok json => ofJson source json

end Schema

end PklBindings
