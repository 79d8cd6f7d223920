import PklBindings.Proofs.ObjectMembers
import PklBindings.Proofs.ReadSchema

/-!
# Schemas as documents

The document of a schema (`Schema.toJson`): what is optional is left out where it is missing, and
the bindings are always given. A document does not say everything: the file of a location is that
of its module, and the types of a declaration may only nest so deep. `Schema.Representable` says
which schemas a document can stand for.
-/

namespace PklBindings

/-! ## Encoding -/

/-- A line or column as a number. -/
def Location.positionToJson (n : UInt32) : Json :=
  .number (.integer n.toNat)

/-- The position of a location. Its file is not written down. -/
def Location.toJson (l : Location) : Json :=
  .object [("line", positionToJson l.line), ("column", positionToJson l.column)]

namespace PklType

mutual

/-- An expression as a document. A part that was left out has no document of its own. -/
def toJson : PklType → Json
  | missing => .null
  | primitive l type => .object
    [("kind", .string "primitive"), ("location", l.toJson), ("name", .string type.name)]
  | nullable l inner => .object
    [("kind", .string "nullable"), ("location", l.toJson), ("inner", toJson inner)]
  | union l members => .object
    [("kind", .string "union"), ("location", l.toJson), ("members", .array (toJsonAll members))]
  | declared l ref => .object
    [("kind", .string "declared"), ("location", l.toJson), ("ref", .string ref)]
  | literal l value => .object
    [("kind", .string "stringLiteral"), ("location", l.toJson), ("value", .string value)]
  | generic l base arguments => .object
    [("kind", .string "generic"), ("location", l.toJson), ("base", toJson base),
      ("arguments", .array (toJsonAll arguments))]
  | function l parameters result => .object
    [("kind", .string "function"), ("location", l.toJson),
      ("parameters", .array (toJsonAll parameters)), ("result", toJson result)]
  | unsupported l spelling => .object
    [("kind", .string "unsupported"), ("location", l.toJson), ("display", .string spelling)]

/-- The expressions of a list as documents. -/
def toJsonAll : List PklType → List Json
  | [] => []
  | e :: es => toJson e :: toJsonAll es

end

theorem toJsonAll_eq_map (es : List PklType) : toJsonAll es = es.map toJson := by
  induction es with
  | nil => rfl
  | cons e es ih => rw [toJsonAll, ih, List.map_cons]

end PklType

/-- A property as a document. -/
def Property.toJson (p : Property) : Json :=
  .object ([("name", .string p.name), ("type", p.type.toJson), ("hidden", .bool p.hidden),
    ("location", p.location.toJson)] ++ Json.optionalMember "doc" (p.doc.map .string))

namespace Declaration

/-- The aliased type as a document, if there is one. -/
def aliasedTypeToJson? (d : Declaration) : Option Json :=
  if d.aliasedType.isMissing then none else some d.aliasedType.toJson

/-- The members of a declaration in a document. -/
def members (d : Declaration) : Json.Members :=
  [("kind", .string d.kind.name), ("name", .string d.name), ("location", d.location.toJson),
    ("properties", .array (d.properties.map Property.toJson)),
    ("values", .array (d.values.map .string))] ++
    Json.optionalMember "doc" (d.doc.map .string) ++
    Json.optionalMember "superclass" (d.superclass.map .string) ++
    Json.optionalMember "aliasedType" d.aliasedTypeToJson?

/-- A declaration as a document. -/
def toJson (d : Declaration) : Json :=
  .object d.members

end Declaration

/-- A module as a document. -/
def Module.toJson (m : Module) : Json :=
  .object [("name", .string m.name), ("uri", .string m.uri),
    ("declarations", .array (m.declarations.map Declaration.toJson))]

/-- A binding as a document. -/
def Binding.toJson (b : Binding) : Json :=
  .object [("kind", .string b.kind.name), ("source", .string b.source),
    ("namespace", .string b.space), ("name", .string b.name), ("location", b.location.toJson)]

/-- A schema as a document. -/
def Schema.toJson (schema : Schema) : Json :=
  .object [("modules", .array (schema.modules.map Module.toJson)),
    ("mappings", .array (schema.bindings.entries.map Binding.toJson))]

/-! ## What a document can stand for -/

/-- A location in the file at a position that counts from one. -/
structure Location.StandsIn (l : Location) (file : String) : Prop where
  file_eq : l.file = file
  line_ne : l.line ≠ 0
  column_ne : l.column ≠ 0

namespace PklType

mutual

/-- Every part of the expression is given and stands in the file. -/
def StandsIn (file : String) : PklType → Prop
  | missing => False
  | primitive l _ | declared l _ | literal l _ | unsupported l _ => l.StandsIn file
  | nullable l inner => l.StandsIn file ∧ StandsIn file inner
  | union l members => l.StandsIn file ∧ StandAllIn file members
  | generic l base arguments => l.StandsIn file ∧ StandsIn file base ∧ StandAllIn file arguments
  | function l parameters result =>
    l.StandsIn file ∧ StandAllIn file parameters ∧ StandsIn file result

/-- Every part of the expressions of a list is given and stands in the file. -/
def StandAllIn (file : String) : List PklType → Prop
  | [] => True
  | e :: es => StandsIn file e ∧ StandAllIn file es

end

theorem StandsIn.isMissing_eq {file : String} {e : PklType} (h : e.StandsIn file) :
    e.isMissing = false := by
  cases e with
  | missing => exact h.elim
  | _ => rfl

mutual

/-- How deep the parts of an expression lie, the expression itself being at depth zero. -/
def depth : PklType → Nat
  | missing | primitive .. | declared .. | literal .. | unsupported .. => 0
  | nullable _ inner => depth inner + 1
  | union _ members => depthAll members
  | generic _ base arguments => max (depth base + 1) (depthAll arguments)
  | function _ parameters result => max (depthAll parameters) (depth result + 1)

/-- How deep the expressions of a list and their parts lie below what they are parts of. -/
def depthAll : List PklType → Nat
  | [] => 0
  | e :: es => max (depth e + 1) (depthAll es)

end

/-- An expression that can be read from a document of the file. -/
structure Representable (e : PklType) (file : String) : Prop where
  standsIn : e.StandsIn file
  depth_le : e.depth ≤ maxDepth

end PklType

/-- A property that can be read from a document of the file. -/
structure Property.Representable (p : Property) (file : String) : Prop where
  type : p.type.Representable file
  location : p.location.StandsIn file

/-- A declaration that can be read from the document of a module: type aliases and no other
declarations have an aliased type. -/
structure Declaration.Representable (d : Declaration) (moduleName file : String) : Prop where
  moduleName_eq : d.moduleName = moduleName
  location : d.location.StandsIn file
  inherits : Reflection.Inherits d
  properties : ∀ p ∈ d.properties, p.Representable file
  aliasedType : d.kind = .typeAlias → d.aliasedType.Representable file
  aliasedType_eq : d.kind ≠ .typeAlias → d.aliasedType = .missing

/-- The file of the locations in a module. -/
def Module.file (m : Module) (source : String) : String :=
  if m.uri = "" then source else m.uri

/-- A schema that a document of the name `source` can stand for. -/
structure Schema.Representable (schema : Schema) (source : String) : Prop where
  modules_ne : schema.modules ≠ []
  declarations : ∀ m ∈ schema.modules, ∀ d ∈ m.declarations,
    d.Representable m.name (m.file source)
  sources_nodup : (Reflection.sources schema.bindings.entries).Nodup
  bindings : ∀ b ∈ schema.bindings.entries, b.location.StandsIn source

end PklBindings
