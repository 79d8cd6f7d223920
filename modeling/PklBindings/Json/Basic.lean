import PklBindings.Json.Number

/-!
# JSON values

Values, the members of objects in the order of the text, and paths that lead from a value to a
value inside it.
-/

namespace PklBindings

/-- A JSON value. -/
inductive Json where
  | null
  | bool (value : Bool)
  | number (value : Json.Number)
  | string (value : String)
  | array (items : List Json)
  | object (members : List (String × Json))
  deriving Repr, Inhabited

namespace Json

/-- The members of an object, by name. -/
abbrev Members := List (String × Json)

/-- The value of an object's member; of several members of the name, the first. -/
def Members.get? (members : Members) (name : String) : Option Json :=
  members.lookup name

/-- The members, if the value is an object. -/
def members? : Json → Option Members
  | object members => some members
  | _ => none

/-- The items, if the value is an array. -/
def items? : Json → Option (List Json)
  | array items => some items
  | _ => none

/-- The text, if the value is a string. -/
def string? : Json → Option String
  | string value => some value
  | _ => none

/-- The truth value, if the value is one. -/
def bool? : Json → Option Bool
  | bool value => some value
  | _ => none

/-- The integer, if the value is a number that counts as one. -/
def integer? : Json → Option Int
  | number value => value.toInteger?
  | _ => none

/-- A way from a value to a value inside it. -/
inductive Path where
  /-- The value itself. -/
  | root
  /-- A member of the object that `parent` leads to. -/
  | member (parent : Path) (name : String)
  /-- An item of the array that `parent` leads to, counted from zero. -/
  | item (parent : Path) (index : Nat)
  deriving DecidableEq, Repr

namespace Path

/-- The written form: member names with dots between them, and indices in brackets. -/
def render : Path → String
  | root => ""
  | member root name => name
  | member parent name => parent.render ++ "." ++ name
  | item parent index => parent.render ++ "[" ++ toString index ++ "]"

/-- What the path leads to in a value. -/
def value? : Path → Json → Option Json
  | root, json => some json
  | member parent name, json => do (← (← parent.value? json).members?).get? name
  | item parent index, json => do (← (← parent.value? json).items?)[index]?

end Path

end Json

end PklBindings
