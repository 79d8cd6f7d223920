import PklBindings.Location

/-!
# Type expressions

The types that a schema attaches to its properties and type aliases. Every part of an expression
is again an expression; a part that was left out is `missing`.
-/

namespace PklBindings

/-- The types that are built into the schema language. -/
inductive Primitive where
  | string
  | int
  | float
  | number
  | boolean
  | any
  | null
  | dynamic
  | duration
  | dataSize
  | regex
  | list
  | set
  | map
  | pair
  deriving DecidableEq, Repr

namespace Primitive

/-- The name of a built-in type. -/
def name : Primitive → String
  | string => "String"
  | int => "Int"
  | float => "Float"
  | number => "Number"
  | boolean => "Boolean"
  | any => "Any"
  | null => "Null"
  | dynamic => "Dynamic"
  | duration => "Duration"
  | dataSize => "DataSize"
  | regex => "Regex"
  | list => "List"
  | set => "Set"
  | map => "Map"
  | pair => "Pair"

/-- All names of built-in types. Integers of every width are one type, and so are a list and a
listing, a map and a mapping. -/
def names : List (String × Primitive) :=
  [("String", string),
   ("Int", int), ("Int8", int), ("Int16", int), ("Int32", int),
   ("UInt", int), ("UInt8", int), ("UInt16", int), ("UInt32", int),
   ("Float", float), ("Number", number), ("Boolean", boolean), ("Any", any), ("Null", null),
   ("Dynamic", dynamic), ("Duration", duration), ("DataSize", dataSize), ("Regex", regex),
   ("List", list), ("Listing", list), ("Set", set), ("Map", map), ("Mapping", map),
   ("Pair", pair)]

/-- The built-in type of a name. -/
def ofName? (name : String) : Option Primitive :=
  names.lookup name

/-- A built-in type is found again under its own name. -/
theorem ofName?_name (p : Primitive) : ofName? p.name = some p := by
  cases p <;> rfl

end Primitive

/-- A type expression; every node knows where it stands. -/
inductive PklType where
  /-- A part that was left out. -/
  | missing
  | primitive (location : Location) (type : Primitive)
  | nullable (location : Location) (inner : PklType)
  | union (location : Location) (members : List PklType)
  /-- A reference to a declaration by its qualified name. -/
  | declared (location : Location) (ref : String)
  | literal (location : Location) (value : String)
  | generic (location : Location) (base : PklType) (arguments : List PklType)
  | function (location : Location) (parameters : List PklType) (result : PklType)
  /-- A shape that has no counterpart in Python, known by its spelling only. -/
  | unsupported (location : Location) (spelling : String)
  deriving Repr, Inhabited

namespace PklType

/-- Where the expression stands. -/
def location : PklType → Location
  | missing => {}
  | primitive l _ | nullable l _ | union l _ | declared l _ | literal l _
  | generic l _ _ | function l _ _ | unsupported l _ => l

/-- Whether the expression was left out. -/
def isMissing : PklType → Bool
  | missing => true
  | _ => false

mutual

/-- The expression in the notation of the schema language. -/
def display : PklType → String
  | missing => "<null>"
  | primitive _ type => type.name
  | nullable _ inner => display inner ++ "?"
  | union _ members => "|".intercalate (displayAll members)
  | declared _ ref => ref
  | literal _ value => "\"" ++ value ++ "\""
  | generic _ base arguments =>
    display base ++ "<" ++ ", ".intercalate (displayAll arguments) ++ ">"
  | function _ parameters result =>
    "(" ++ ", ".intercalate (displayAll parameters) ++ ") -> " ++ display result
  | unsupported _ spelling => spelling

/-- The expressions of a list, each in the notation of the schema language. -/
def displayAll : List PklType → List String
  | [] => []
  | e :: es => display e :: displayAll es

end

mutual

/-- The declarations that the expression refers to, from left to right, with repetitions. -/
def references : PklType → List String
  | missing | primitive .. | literal .. | unsupported .. => []
  | nullable _ inner => references inner
  | union _ members => referencesAll members
  | declared _ ref => [ref]
  | generic _ base arguments => references base ++ referencesAll arguments
  | function _ parameters result => referencesAll parameters ++ references result

/-- The declarations that the expressions of a list refer to. -/
def referencesAll : List PklType → List String
  | [] => []
  | e :: es => references e ++ referencesAll es

end

end PklType

end PklBindings
