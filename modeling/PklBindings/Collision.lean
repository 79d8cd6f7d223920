import PklBindings.Binding

/-!
# Name collisions

Two declarations collide when they are bound to the same name in the same namespace. The
collisions of a list of bindings come in the order of namespace and name, each with the colliding
declarations in the order of the list.
-/

namespace PklBindings

/-- One of the declarations that collide. -/
structure Conflict where
  kind : Declaration.Kind
  source : String
  location : Location := {}
  deriving DecidableEq, Repr

/-- Declarations that share a name in a namespace. -/
structure Collision where
  space : String
  name : String
  conflicts : List Conflict
  deriving DecidableEq, Repr

/-- The Python name of a binding, with its namespace. -/
def Binding.boundName (b : Binding) : String × String :=
  (b.space, b.name)

/-- The part of a binding that a collision shows. -/
def Binding.toConflict (b : Binding) : Conflict :=
  ⟨b.kind, b.source, b.location⟩

/-- The part of a qualified name behind its last `#`. -/
def simpleName (qualifiedName : String) : String :=
  .ofList (qualifiedName.toList.reverse.takeWhile (· ≠ '#')).reverse

namespace Collision

/-- How an annotation in the schema renames the first of the declarations. -/
def remedy (c : Collision) : String :=
  "@python.Name \x7b value = \"" ++ c.name ++ "2\" \x7d\n" ++
    match c.conflicts with
    | [] => ""
    | first :: _ =>
      match first.kind with
      | .moduleClass => "module " ++ first.source
      | .typeAlias => "typealias " ++ simpleName first.source ++ " = ..."
      | .ordinaryClass | .enumeration => "class " ++ simpleName first.source

/-- The line for one of the declarations. -/
def conflictLine (d : Conflict) : String :=
  "* [" ++ d.kind.name ++ "] `" ++ d.source ++ "` (" ++ d.location.render ++ ")\n"

/-- The collision in words, with the way out of it. -/
def message (c : Collision) : String :=
  "Conflict: multiple Pkl declarations compute to Python name `" ++ c.name ++
    "` in namespace `" ++ c.space ++ "`.\n\n" ++
    "To resolve this conflict, add a `@python.Name` annotation to any of the following " ++
    "declarations:\n\n" ++
    String.join (c.conflicts.map conflictLine) ++
    "\nFor example:\n\n```\n" ++ c.remedy ++ "\n```"

/-- Bound names are ordered by namespace, then by name. -/
def nameLE (a b : String × String) : Bool :=
  a.1 < b.1 || (a.1 = b.1 && a.2 ≤ b.2)

/-- The names that bindings bind, each once, in order. -/
def boundNames (bindings : List Binding) : List (String × String) :=
  (bindings.map (·.boundName)).eraseDups.mergeSort nameLE

/-- The collision over one bound name, if there is one. -/
def ofName? (bindings : List Binding) (bound : String × String) : Option Collision :=
  match bindings.filter (·.boundName = bound) with
  | first :: second :: others =>
    some ⟨bound.1, bound.2, (first :: second :: others).map Binding.toConflict⟩
  | _ => none

/-- All collisions among bindings. -/
def all (bindings : List Binding) : List Collision :=
  (boundNames bindings).filterMap (ofName? bindings)

/-- The collisions within one namespace of a table. -/
def inSpace (table : BindingTable) (space : String) : List Collision :=
  all (table.inSpace space)

end Collision

end PklBindings
