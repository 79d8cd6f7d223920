import PklBindings.Json.Basic

/-!
# Reading texts

JSON and decimal integers are read from texts by a library. What it accepts and how it words what is
wrong with a text are its own affair, so the program takes it as a parameter.
-/

namespace PklBindings

/-- A library that reads texts. -/
structure TextReader where
  /-- The JSON value that a text writes, or what is wrong with the text. -/
  json : String → Except String Json
  /-- The integer of 64 bits with a sign that a text writes in decimal, if it writes one. -/
  integer : String → Option Int64

end PklBindings
