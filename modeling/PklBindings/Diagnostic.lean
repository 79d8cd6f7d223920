import PklBindings.Location

/-!
# Diagnostics

Remarks about a schema, kept in the order in which they were made.
-/

namespace PklBindings

/-- How much weight a remark has. -/
inductive Severity where
  | note
  | warning
  | error
  deriving DecidableEq, Repr

/-- The word for a severity. -/
def Severity.name : Severity → String
  | .note => "note"
  | .warning => "warning"
  | .error => "error"

/-- One remark and the place that it is about. -/
structure Diagnostic where
  severity : Severity
  location : Location
  message : String
  deriving DecidableEq, Repr

/-- One line for one remark. -/
def Diagnostic.render (d : Diagnostic) : String :=
  d.location.render ++ ": " ++ d.severity.name ++ ": " ++ d.message ++ "\n"

/-- Remarks, oldest first. -/
abbrev Diagnostics := List Diagnostic

namespace Diagnostics

/-- All remarks, a line for each. -/
def render (ds : Diagnostics) : String :=
  String.join (ds.map Diagnostic.render)

end Diagnostics

end PklBindings
