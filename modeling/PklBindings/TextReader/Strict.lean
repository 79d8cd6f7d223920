import PklBindings.Json.Parser
import PklBindings.TextReader

/-!
# A strict reader of texts

A reader that takes JSON texts after RFC 8259 and integers that are written in digits, with a minus
sign at most, and that does not say what is wrong with a text.
-/

namespace PklBindings.TextReader

/-- The number that decimal digits write, at least one. -/
def ofDigits? (ds : List Char) : Option Nat :=
  if !ds.isEmpty && ds.all Char.isDigit then some (Json.Parser.ofDigits ds) else none

/-- The integer that a text writes in decimal, behind a minus sign if it is negative. -/
def integer? (text : String) : Option Int :=
  match text.toList with
  | '-' :: ds => (ofDigits? ds).map fun n => -(n : Int)
  | ds => (ofDigits? ds).map fun n => (n : Int)

/-- The reader of strict texts. -/
def strict : TextReader where
  json text :=
    match Json.parse? text with
    | some json => .ok json
    | none => .error ""
  integer text := ((integer? text).filter Json.Number.fits).map Int64.ofInt

end PklBindings.TextReader
