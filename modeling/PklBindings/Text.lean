/-!
# Text

Cutting and trimming of text. Letters, digits and blanks are the ASCII ones throughout the
library: a character outside ASCII is never a letter, never a digit and never blank.
-/

namespace PklBindings.Text

/-- Space, tab, line feed, vertical tab, form feed and carriage return. -/
def isBlank (c : Char) : Bool :=
  c = ' ' || ('\t' ≤ c && c ≤ '\r')

/-- The characters before the blanks at the end. -/
def trimRightChars (cs : List Char) : List Char :=
  (cs.reverse.dropWhile isBlank).reverse

/-- The pieces between line feeds. A text without a line feed is one piece, also when it is
empty. -/
def splitLines : List Char → List (List Char)
  | [] => [[]]
  | c :: cs =>
    if c = '\n' then [] :: splitLines cs
    else
      match splitLines cs with
      | [] => [[c]]
      | piece :: pieces => (c :: piece) :: pieces

/-- The lines of a text, each without the blanks at its end. -/
def trimmedLines (s : String) : List String :=
  (splitLines s.toList).map fun piece => .ofList (trimRightChars piece)

/-- The text before its first NUL: what the operating system sees of a path, and what a plain
error message shows of a quoted text. -/
def untilNul (s : String) : String :=
  .ofList (s.toList.takeWhile (· ≠ '\x00'))

theorem splitLines_ne_nil (cs : List Char) : splitLines cs ≠ [] := by
  induction cs with
  | nil => simp [splitLines]
  | cons c cs ih =>
    rw [splitLines]
    split
    · simp
    · split <;> simp

end PklBindings.Text
