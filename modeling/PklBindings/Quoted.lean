/-!
# Quoted text

A text as a Python string literal between double quotes.
-/

namespace PklBindings.Quoted

/-- The lower-case hexadecimal digit of a number below sixteen. -/
def hexDigit (n : Nat) : Char :=
  if n < 10 then Char.ofNat (48 + n) else Char.ofNat (87 + n)

/-- One character inside the quotes: a backslash and a double quote are escaped, and so is every
control character below the blank, by its short form or by two hexadecimal digits. -/
def encodeChar (c : Char) : List Char :=
  if c = '\\' then ['\\', '\\']
  else if c = '"' then ['\\', '"']
  else if c = '\n' then ['\\', 'n']
  else if c = '\r' then ['\\', 'r']
  else if c = '\t' then ['\\', 't']
  else if c.toNat < 0x20 then ['\\', 'x', hexDigit (c.toNat / 16), hexDigit (c.toNat % 16)]
  else [c]

/-- The characters of the literal. -/
def encodeChars (cs : List Char) : List Char :=
  '"' :: cs.flatMap encodeChar ++ ['"']

/-- The literal that stands for the text. -/
def encode (text : String) : String :=
  .ofList (encodeChars text.toList)

end PklBindings.Quoted
