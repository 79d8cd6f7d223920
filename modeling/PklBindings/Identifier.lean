/-!
# Identifiers

Every text has a Python identifier: its characters that may stand in one are kept, the others
become underscores, and a word that Python reserves gets an underscore behind it. Two further
spellings put the words of a name in snake case, lower or upper.
-/

namespace PklBindings.Identifier

/-- The words that Python reserves, `match` and `case` among them. -/
def keywords : List String :=
  ["False", "None", "True", "and", "as", "assert", "async", "await", "break", "class", "continue",
   "def", "del", "elif", "else", "except", "finally", "for", "from", "global", "if", "import",
   "in", "is", "lambda", "nonlocal", "not", "or", "pass", "raise", "return", "try", "while",
   "with", "yield", "match", "case"]

/-- Whether Python reserves the word. -/
def isKeyword (word : String) : Bool :=
  keywords.contains word

/-- The characters of an identifier: ASCII letters, ASCII digits and the underscore. -/
def isNameChar (c : Char) : Bool :=
  c.isAlphanum || c = '_'

/-- A character as it stands in an identifier: itself, or one underscore for each byte of its
encoding. -/
def nameChars (c : Char) : List Char :=
  if isNameChar c then [c] else List.replicate c.utf8Size '_'

/-- Puts an underscore in front of a digit at the start, or in place of nothing. -/
def guardStart : List Char → List Char
  | [] => ['_']
  | c :: cs => if c.isDigit then '_' :: c :: cs else c :: cs

/-- Puts an underscore behind a keyword. -/
def guardKeyword (word : List Char) : List Char :=
  if isKeyword (.ofList word) then word ++ ['_'] else word

/-- The identifier of a text; the empty text has the identifier `_`. -/
def ofText (text : String) : String :=
  .ofList (guardKeyword (guardStart (text.toList.flatMap nameChars)))

/-- Whether a word starts at the upper-case letter `c`: after a lower-case letter or a digit,
and after an upper-case letter when a lower-case one follows. -/
def startsWord (before c : Char) (after : Option Char) : Bool :=
  c.isUpper &&
    (before.isLower || before.isDigit || (before.isUpper && after.any Char.isLower))

/-- The words of a text in lower case, joined by single underscores. `started` says whether a
word has been written, and `before` is the character in front of the rest. -/
def joinWords : (started : Bool) → (before : Char) → List Char → List Char
  | _, _, [] => []
  | started, before, c :: cs =>
    if c.isAlphanum then
      let apart := started && (!before.isAlphanum || startsWord before c cs.head?)
      (if apart then ['_'] else []) ++ c.toLower :: joinWords true c cs
    else
      joinWords started c cs

/-- The identifier of a text in lower snake case. -/
def snakeCase (text : String) : String :=
  ofText (.ofList (joinWords false '\x00' text.toList))

/-- The identifier of a text in upper snake case. -/
def upperSnakeCase (text : String) : String :=
  .ofList ((snakeCase text).toList.map Char.toUpper)

end PklBindings.Identifier
