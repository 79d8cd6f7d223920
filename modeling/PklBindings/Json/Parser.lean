import PklBindings.Json.Basic

/-!
# Reading JSON

Texts after RFC 8259, and no others. A text is read from the left: a reader takes the characters
that are left and gives its result with the characters behind it, or nothing if the text is
malformed.
-/

namespace PklBindings.Json.Parser

/-- A result and the characters behind it. -/
abbrev Read (α : Type) := Option (α × List Char)

/-- Space, tab, line feed and carriage return. -/
def isBlank (c : Char) : Bool :=
  c = ' ' || c = '\t' || c = '\n' || c = '\r'

/-- The characters behind leading blanks. -/
def skipBlanks (cs : List Char) : List Char :=
  cs.dropWhile isBlank

/-! ## Numbers -/

/-- The number that decimal digits write. -/
def ofDigits (ds : List Char) : Nat :=
  ds.foldl (fun n d => 10 * n + (d.toNat - '0'.toNat)) 0

/-- One digit or more. -/
def digits (cs : List Char) : Read (List Char) :=
  match cs.takeWhile Char.isDigit with
  | [] => none
  | ds => some (ds, cs.dropWhile Char.isDigit)

/-- Digits of which the first is zero only if it is the only one. -/
def wholeDigits (cs : List Char) : Read (List Char) :=
  match digits cs with
  | some ('0' :: _ :: _, _) => none
  | result => result

/-- The digits behind a point, if there is one. -/
def fraction : List Char → Read (Option (List Char))
  | '.' :: cs => (digits cs).map fun (ds, rest) => (some ds, rest)
  | cs => some (none, cs)

/-- The digits of an exponent behind its sign. -/
def signedExponent : List Char → Read Int
  | '-' :: cs => (digits cs).map fun (ds, rest) => (-(ofDigits ds : Int), rest)
  | '+' :: cs => (digits cs).map fun (ds, rest) => ((ofDigits ds : Int), rest)
  | cs => (digits cs).map fun (ds, rest) => ((ofDigits ds : Int), rest)

/-- The exponent, if there is one. -/
def exponent : List Char → Read (Option Int)
  | 'e' :: cs | 'E' :: cs => (signedExponent cs).map fun (e, rest) => (some e, rest)
  | cs => some (none, cs)

/-- A number without its sign. -/
def unsignedNumber (negative : Bool) (cs : List Char) : Option (Number × List Char) := do
  let (whole, cs) ← wholeDigits cs
  let (part, cs) ← fraction cs
  let (power, cs) ← exponent cs
  let signed (n : Nat) : Int := if negative then -n else n
  match part, power with
  | none, none => some (.integer (signed (ofDigits whole)), cs)
  | _, _ =>
    let ds := part.getD []
    some (.decimal (signed (ofDigits (whole ++ ds))) (power.getD 0 - ds.length), cs)

/-- A number. -/
def number : List Char → Read Number
  | '-' :: cs => unsignedNumber true cs
  | cs => unsignedNumber false cs

/-! ## Strings -/

/-- The value of a hexadecimal digit. -/
def hexValue? (c : Char) : Option Nat :=
  if c.isDigit then some (c.toNat - '0'.toNat)
  else if 'a' ≤ c && c ≤ 'f' then some (c.toNat - 'a'.toNat + 10)
  else if 'A' ≤ c && c ≤ 'F' then some (c.toNat - 'A'.toNat + 10)
  else none

/-- The number that four hexadecimal digits write. -/
def hexValue4? (a b c d : Char) : Option Nat := do
  return 4096 * (← hexValue? a) + 256 * (← hexValue? b) + 16 * (← hexValue? c) + (← hexValue? d)

/-- The character of a code point, unless it is one half of a surrogate pair. -/
def char? (n : Nat) : Option Char :=
  if h : n.isValidChar then some (Char.ofNatAux n h) else none

/-- The character of the two halves of a surrogate pair. -/
def pairChar? (high low : Nat) : Option Char :=
  if 0xD800 ≤ high && high < 0xDC00 && 0xDC00 ≤ low && low < 0xE000 then
    char? (0x10000 + 0x400 * (high - 0xD800) + (low - 0xDC00))
  else none

/-- The character of a one-letter escape. -/
def shortEscape? : Char → Option Char
  | '"' => some '"'
  | '\\' => some '\\'
  | '/' => some '/'
  | 'b' => some '\x08'
  | 'f' => some '\x0c'
  | 'n' => some '\n'
  | 'r' => some '\r'
  | 't' => some '\t'
  | _ => none

/-- The rest of a string behind its opening quote; `done` holds its characters so far, the last
first. -/
def stringRest (done : List Char) : List Char → Read String
  | '"' :: cs => some (.ofList done.reverse, cs)
  | '\\' :: 'u' :: a :: b :: c :: d :: '\\' :: 'u' :: e :: f :: g :: h :: cs =>
    match hexValue4? a b c d with
    | none => none
    | some n =>
      match char? n with
      | some x => stringRest (x :: done) ('\\' :: 'u' :: e :: f :: g :: h :: cs)
      | none =>
        match (hexValue4? e f g h).bind (pairChar? n) with
        | some x => stringRest (x :: done) cs
        | none => none
  | '\\' :: 'u' :: a :: b :: c :: d :: cs =>
    match (hexValue4? a b c d).bind char? with
    | some x => stringRest (x :: done) cs
    | none => none
  | '\\' :: c :: cs =>
    match shortEscape? c with
    | some x => stringRest (x :: done) cs
    | none => none
  | c :: cs => if c = '\\' || c.toNat < 0x20 then none else stringRest (c :: done) cs
  | [] => none

/-! ## Values -/

/-- The members of an object when one more stands in front of them. Of members of one name the last
counts. -/
def inFront (member : String × Json) (members : Members) : Members :=
  if members.any (·.1 = member.1) then members else member :: members

mutual

/-- A value. The nesting of values and the length of lists stay below `bound`. -/
def value : (bound : Nat) → List Char → Read Json
  | 0, _ => none
  | bound + 1, cs =>
    match skipBlanks cs with
    | 'n' :: 'u' :: 'l' :: 'l' :: cs => some (.null, cs)
    | 't' :: 'r' :: 'u' :: 'e' :: cs => some (.bool true, cs)
    | 'f' :: 'a' :: 'l' :: 's' :: 'e' :: cs => some (.bool false, cs)
    | '"' :: cs => (stringRest [] cs).map fun (s, rest) => (.string s, rest)
    | '[' :: cs =>
      match skipBlanks cs with
      | ']' :: cs => some (.array [], cs)
      | cs => (itemsRest bound cs).map fun (items, rest) => (.array items, rest)
    | '\x7b' :: cs =>
      match skipBlanks cs with
      | '\x7d' :: cs => some (.object [], cs)
      | cs => (membersRest bound cs).map fun (members, rest) => (.object members, rest)
    | cs => (number cs).map fun (n, rest) => (.number n, rest)

/-- The items of an array up to its end, at least one. -/
def itemsRest : (bound : Nat) → List Char → Read (List Json)
  | 0, _ => none
  | bound + 1, cs =>
    match value bound cs with
    | none => none
    | some (item, cs) =>
      match skipBlanks cs with
      | ']' :: cs => some ([item], cs)
      | ',' :: cs => (itemsRest bound cs).map fun (items, rest) => (item :: items, rest)
      | _ => none

/-- The members of an object up to its end, at least one. -/
def membersRest : (bound : Nat) → List Char → Read Members
  | 0, _ => none
  | bound + 1, cs =>
    match skipBlanks cs with
    | '"' :: cs =>
      match stringRest [] cs with
      | none => none
      | some (name, cs) =>
        match skipBlanks cs with
        | ':' :: cs =>
          match value bound cs with
          | none => none
          | some (item, cs) =>
            match skipBlanks cs with
            | '\x7d' :: cs => some ([(name, item)], cs)
            | ',' :: cs =>
              (membersRest bound cs).map fun (members, rest) => (inFront (name, item) members, rest)
            | _ => none
        | _ => none
    | _ => none

end

end PklBindings.Json.Parser

namespace PklBindings.Json

/-- The value that a text writes, or nothing if the text is malformed. Every step into a value
or along a list takes a character, or follows one that did, so twice the length bounds them. -/
def parse? (text : String) : Option Json :=
  let cs := text.toList
  match Parser.value (2 * cs.length + 2) cs with
  | some (json, rest) => if (Parser.skipBlanks rest).isEmpty then some json else none
  | none => none

end PklBindings.Json
