import PklBindings.Quoted
import PklBindings.Target

/-!
# Annotations

Type expressions as Python annotations. An expression has an annotation unless something in it
has no counterpart in Python; then the first such place, from the left and a node before its
parts, is reported.
-/

namespace PklBindings

/-- The Python type of a built-in type. -/
def Primitive.annotation : Primitive → String
  | .string => "str"
  | .int => "int"
  | .float | .number => "float"
  | .boolean => "bool"
  | .any | .dynamic => "Any"
  | .null => "None"
  | .duration => "pkl.Duration"
  | .dataSize => "pkl.DataSize"
  | .regex => "re.Pattern"
  | .list => "List"
  | .set => "Set"
  | .map => "Dict"
  | .pair => "Tuple"

/-- Why a type expression has no annotation. -/
inductive UnsupportedReason where
  /-- Its shape has no counterpart. -/
  | noCounterpart
  /-- One of its parts was left out. -/
  | missingPart
  | emptyUnion
  /-- It refers to a declaration that has no Python name. -/
  | unbound (ref : String)
  deriving DecidableEq, Repr

/-- A type expression without an annotation. -/
structure UnsupportedType where
  display : String
  location : Location
  reason : UnsupportedReason
  deriving DecidableEq, Repr

namespace UnsupportedType

/-- Reports an expression. -/
def of (e : PklType) (reason : UnsupportedReason) : UnsupportedType :=
  ⟨e.display, e.location, reason⟩

/-- The report in words. -/
def message (e : UnsupportedType) : String :=
  e.location.render ++ ": unsupported type `" ++ e.display ++ "`" ++
    match e.reason with
    | .noCounterpart => ""
    | .missingPart => ": missing nested type"
    | .emptyUnion => ": empty union"
    | .unbound ref => ": no mapping for declaration '" ++ ref ++ "'"

end UnsupportedType

namespace PklType

mutual

/-- The annotation of an expression; when it was left out, `owner` is reported. -/
def annotate (target : Target) (owner : PklType) : PklType → Except UnsupportedType String
  | missing => .error (.of owner .missingPart)
  | primitive _ type => .ok type.annotation
  | nullable l inner => do
    let inner' ← annotate target (nullable l inner) inner
    return "Optional[" ++ inner' ++ "]"
  | union l [] => .error (.of (union l []) .emptyUnion)
  | union l (e :: es) => do
    let first ← annotate target (union l (e :: es)) e
    let others ← annotateAll target (union l (e :: es)) es
    return "Union[" ++ ", ".intercalate (first :: others) ++ "]"
  | declared l ref =>
    match target.bindings.find? ref with
    | none => .error (.of (declared l ref) (.unbound ref))
    | some binding => .ok (target.spelling binding)
  | literal _ value => .ok ("Literal[" ++ Quoted.encode value ++ "]")
  | generic l base arguments => do
    let base' ← annotate target (generic l base arguments) base
    let arguments' ← annotateAll target (generic l base arguments) arguments
    return if arguments.isEmpty then base' else base' ++ "[" ++ ", ".intercalate arguments' ++ "]"
  | function l parameters result => do
    let parameters' ← annotateAll target (function l parameters result) parameters
    let result' ← annotate target (function l parameters result) result
    return "Callable[[" ++ ", ".intercalate parameters' ++ "], " ++ result' ++ "]"
  | unsupported l spelling => .error (.of (unsupported l spelling) .noCounterpart)

/-- The annotations of the parts of `owner`. -/
def annotateAll (target : Target) (owner : PklType) :
    List PklType → Except UnsupportedType (List String)
  | [] => .ok []
  | e :: es => do
    let first ← annotate target owner e
    let others ← annotateAll target owner es
    return first :: others

end

/-- The annotation of an expression that stands by itself. -/
def annotation (e : PklType) (target : Target) : Except UnsupportedType String :=
  annotate target e e

/-- The foreign namespaces that the annotation names, each once, from left to right. -/
def foreignSpaces (e : PklType) (target : Target) : List String :=
  target.foreignSpaces e.references

end PklType

end PklBindings
