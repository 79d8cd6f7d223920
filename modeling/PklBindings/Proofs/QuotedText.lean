import PklBindings.Quoted
import Mathlib.Data.List.Basic

/-!
# Reading quoted text

A string literal between double quotes, read one character at a time. What is read from the literal
of a text is that text, and the literal is complete at its last character and not before
(`Quoted.scan_encodeChars`).
-/

namespace PklBindings.Quoted

/-- How much of a literal has been read, and the text that this much stands for. -/
inductive Scan where
  /-- Nothing: the quote in front comes next. -/
  | start
  | inside (read : List Char)
  /-- A backslash has been read last. -/
  | escape (read : List Char)
  /-- The beginning `\x` of an escape has been read last. -/
  | hex (read : List Char)
  /-- And its first digit. -/
  | secondHex (read : List Char) (first : Nat)
  /-- All of it. -/
  | closed (read : List Char)

/-- The value of a lower-case hexadecimal digit. -/
def hexValue? (c : Char) : Option Nat :=
  if '0' ≤ c && c ≤ '9' then some (c.toNat - 48)
  else if 'a' ≤ c && c ≤ 'f' then some (c.toNat - 87)
  else none

/-- The character that an escape of one letter stands for. -/
def shortEscape? (c : Char) : Option Char :=
  [('\\', '\\'), ('"', '"'), ('n', '\n'), ('r', '\r'), ('t', '\t')].lookup c

/-- Reads one more character; there is none behind the quote that closes the literal. -/
def Scan.step : Scan → Char → Option Scan
  | start, c => if c = '"' then some (inside []) else none
  | inside read, c =>
    if c = '"' then some (closed read)
    else if c = '\\' then some (escape read)
    else some (inside (read ++ [c]))
  | escape read, c =>
    if c = 'x' then some (hex read)
    else (shortEscape? c).map fun d => inside (read ++ [d])
  | hex read, c => (hexValue? c).map (secondHex read)
  | secondHex read first, c =>
    (hexValue? c).map fun second => inside (read ++ [.ofNat (16 * first + second)])
  | closed _, _ => none

theorem hexValue?_hexDigit : ∀ n < 16, hexValue? (hexDigit n) = some n := by
  decide

/-- The two digits of a character below 256 give it back. -/
theorem ofNat_digits (c : Char) : Char.ofNat (16 * (c.toNat / 16) + c.toNat % 16) = c := by
  rw [Nat.div_add_mod, Char.ofNat_toNat]

/-- Whatever way a character is written, it is what is read. -/
theorem scan_encodeChar (c : Char) (read : List Char) :
    (encodeChar c).foldlM Scan.step (.inside read) = some (.inside (read ++ [c])) := by
  rw [encodeChar]
  split_ifs with hbackslash hquote hfeed hreturn htab hcontrol
  · rw [hbackslash]
    rfl
  · rw [hquote]
    rfl
  · rw [hfeed]
    rfl
  · rw [hreturn]
    rfl
  · rw [htab]
    rfl
  · have hfirst := hexValue?_hexDigit (c.toNat / 16) (by omega)
    have hsecond := hexValue?_hexDigit (c.toNat % 16) (by omega)
    simp [Scan.step, hfirst, hsecond, ofNat_digits]
  · simp [Scan.step, hquote, hbackslash]

theorem scan_flatMap_encodeChar (cs read : List Char) :
    (cs.flatMap encodeChar).foldlM Scan.step (.inside read) = some (.inside (read ++ cs)) := by
  induction cs generalizing read with
  | nil => simp
  | cons c cs ih =>
      rw [List.flatMap_cons, List.foldlM_append, scan_encodeChar]
      simpa using ih (read ++ [c])

/-- What is read from the literal of a text is the text. -/
theorem scan_encodeChars (cs : List Char) :
    (encodeChars cs).foldlM Scan.step .start = some (.closed cs) := by
  rw [encodeChars, List.cons_append, List.foldlM_cons]
  simp [Scan.step, scan_flatMap_encodeChar]

end PklBindings.Quoted
