import PklBindings.Text

/-!
# Documentation in generated code

A documentation comment of the schema becomes comment lines in front of an assignment, or the
docstring of a class.
-/

namespace PklBindings.DocComment

/-- One line of documentation behind a number sign. -/
def commentLine (line : String) : String :=
  if line = "" then "#" else "# " ++ line

/-- The documentation as comment lines. -/
def commentLines (doc : String) : List String :=
  (Text.trimmedLines doc).map commentLine

/-- A character inside a docstring: quotes and backslashes are escaped. -/
def escapeChar (c : Char) : List Char :=
  if c = '\\' then ['\\', '\\'] else if c = '"' then ['\\', '"'] else [c]

/-- The text between the triple quotes. -/
def escape (doc : String) : String :=
  .ofList ((Text.trimRightChars doc.toList).flatMap escapeChar)

/-- The triple quote around a docstring. -/
def tripleQuote : String := "\"\"\""

/-- The documentation as a docstring: on one line if it has one line, and otherwise with the
triple quotes on lines of their own. -/
def docstringLines (doc : String) : List String :=
  let text := escape doc
  if '\n' ∈ text.toList then tripleQuote :: Text.trimmedLines text ++ [tripleQuote]
  else [tripleQuote ++ text ++ tripleQuote]

end PklBindings.DocComment
