import Mathlib.Algebra.Group.Nat.Even
import Mathlib.Data.List.DropRight
import PklBindings.Proofs.QuotedText
import PklBindings.Proofs.Texts

/-!
# Quoted bytes

A literal is written byte by byte, and so it can be read. For every byte string, whether or not it
is a text, no byte of the literal is below the blank, its first and its last byte are quotes and no
other quote in it stands unescaped, and what is read from it is the byte string
(`Quoted.literal_of_every_byteString`). Whether a quote is escaped is seen from what stands in front
of it alone: it is by an odd number of backslashes (`Quoted.backslashes`).
-/

namespace PklBindings.Quoted

/-! ## The ways in which a character is written -/

/-- What a character can be written as: itself, the short form of an escape, or an escape of two
digits. -/
inductive Written (c : Char) : List Char → Prop where
  | plain (hbackslash : c ≠ '\\') (hquote : c ≠ '"') (hcontrol : 0x20 ≤ c.toNat) : Written c [c]
  | short {letter : Char} (hletter : letter ∈ ['\\', '"', 'n', 'r', 't']) :
    Written c ['\\', letter]
  | hex {first second : Nat} (hfirst : first < 16) (hsecond : second < 16) :
    Written c ['\\', 'x', hexDigit first, hexDigit second]

theorem written_encodeChar (c : Char) : Written c (encodeChar c) := by
  rw [encodeChar]
  split_ifs with hbackslash hquote hfeed hreturn htab hcontrol
  · exact .short (by decide)
  · exact .short (by decide)
  · exact .short (by decide)
  · exact .short (by decide)
  · exact .short (by decide)
  · exact .hex (by omega) (by omega)
  · exact .plain hbackslash hquote (by omega)

theorem toNat_hexDigit : ∀ n < 16, 0x20 ≤ (hexDigit n).toNat ∧ (hexDigit n).toNat < 128 := by
  decide

theorem hexDigit_ne : ∀ n < 16, hexDigit n ≠ '"' ∧ hexDigit n ≠ '\\' := by
  decide

section Written

variable {c : Char} {cs ds before behind : List Char}

/-- Nothing below the blank is written. -/
theorem Written.le_toNat (h : Written c cs) : ∀ d ∈ cs, 0x20 ≤ d.toNat := by
  cases h with
  | plain _ _ hcontrol => simpa using hcontrol
  | short hletter =>
      have hletters : ∀ letter ∈ ['\\', '"', 'n', 'r', 't'], 0x20 ≤ letter.toNat := by simp
      simpa using hletters _ hletter
  | hex hfirst hsecond =>
      simpa using ⟨(toNat_hexDigit _ hfirst).1, (toNat_hexDigit _ hsecond).1⟩

/-- Nothing is written but the character itself and ASCII characters. -/
theorem Written.eq_or_toNat_lt (h : Written c cs) : ∀ d ∈ cs, d = c ∨ d.toNat < 128 := by
  cases h with
  | plain _ _ _ => simp
  | short hletter =>
      have hletters : ∀ letter ∈ ['\\', '"', 'n', 'r', 't'], letter.toNat < 128 := by simp
      simpa using Or.inr (hletters _ hletter)
  | hex hfirst hsecond =>
      simpa using ⟨.inr (toNat_hexDigit _ hfirst).2, .inr (toNat_hexDigit _ hsecond).2⟩

/-! ## Unescaped quotes -/

/-- How many backslashes stand at the end. What follows is escaped when their number is odd. -/
def backslashes (cs : List Char) : Nat :=
  (cs.rtakeWhile (· = '\\')).length

theorem backslashes_concat_of_ne (h : c ≠ '\\') : backslashes (cs ++ [c]) = 0 := by
  rw [backslashes, List.rtakeWhile_concat_neg _ _ _ (by simpa using h), List.length_nil]

theorem backslashes_concat_backslash (cs : List Char) :
    backslashes (cs ++ ['\\']) = backslashes cs + 1 := by
  rw [backslashes, List.rtakeWhile_concat_pos _ _ _ (by simp), List.length_append]
  rfl

/-- Nothing is escaped behind a character that has been written as a whole. -/
theorem Written.even_backslashes (h : Written c cs) (hbefore : Even (backslashes before)) :
    Even (backslashes (before ++ cs)) := by
  cases h with
  | plain hbackslash _ _ =>
      rw [backslashes_concat_of_ne hbackslash]
      exact .zero
  | @short letter hletter =>
      rw [List.append_cons]
      by_cases hbackslash : letter = '\\'
      · rw [hbackslash, backslashes_concat_backslash, backslashes_concat_backslash]
        exact hbefore.add (by decide : Even 2)
      · rw [backslashes_concat_of_ne hbackslash]
        exact .zero
  | @hex first second hfirst hsecond =>
      rw [List.append_cons, List.append_cons, List.append_cons,
        backslashes_concat_of_ne (hexDigit_ne second hsecond).2]
      exact .zero

/-- A quote is written with a backslash in front of it, and no other character with a quote. -/
theorem Written.eq_of_quote (h : Written c cs) (hcs : cs = before ++ '"' :: behind) :
    before = ['\\'] ∧ behind = [] := by
  cases h with
  | plain _ hquote _ =>
      rcases List.append_eq_singleton_iff.1 hcs.symm with ⟨-, hquoted⟩ | ⟨-, hnil⟩
      · exact absurd (List.cons.inj hquoted).1.symm hquote
      · cases hnil
  | @short letter hletter =>
      cases before with
      | nil => simp at hcs
      | cons first before =>
          obtain ⟨rfl, hrest⟩ := List.cons.inj hcs
          rcases List.append_eq_singleton_iff.1 hrest.symm with ⟨rfl, hquoted⟩ | ⟨-, hnil⟩
          · exact ⟨rfl, (List.cons.inj hquoted).2⟩
          · cases hnil
  | hex hfirst hsecond =>
      have hmem : '"' ∈ before ++ '"' :: behind := by simp
      rw [← hcs] at hmem
      have hfirstDigit := (hexDigit_ne _ hfirst).1
      have hsecondDigit := (hexDigit_ne _ hsecond).1
      simp [hfirstDigit.symm, hsecondDigit.symm] at hmem

/-- Behind a place where nothing is escaped, the quotes of the written characters are escaped, and
that of the end is not. -/
theorem even_backslashes_iff_of_quote (hopen : Even (backslashes cs))
    (h : ds.flatMap encodeChar ++ ['"'] = before ++ '"' :: behind) :
    Even (backslashes (cs ++ before)) ↔ behind = [] := by
  induction ds generalizing cs before with
  | nil =>
      rcases List.append_eq_singleton_iff.1 h.symm with ⟨rfl, hquote⟩ | ⟨-, hnil⟩
      · rw [List.append_nil]
        exact iff_of_true hopen (List.cons.inj hquote).2
      · cases hnil
  | cons d ds ih =>
      have hwritten := written_encodeChar d
      rw [List.flatMap_cons, List.append_assoc] at h
      have hdone := hwritten.even_backslashes hopen
      -- The quote stands behind what `d` is written with, right behind it, or in it.
      rcases List.append_eq_append_iff.1 h with ⟨before', rfl, hrest⟩ | ⟨inside, hd, hbehind⟩
      · rw [← List.append_assoc]
        exact ih hdone hrest
      cases inside with
      | nil =>
          rw [List.append_nil] at hd
          have hrest : ds.flatMap encodeChar ++ ['"'] = [] ++ '"' :: behind := hbehind.symm
          have hquote := ih hdone hrest
          rwa [List.append_nil, hd] at hquote
      | cons quote inside =>
          -- So `d` is a quote itself, and a backslash is what the quote stands behind.
          obtain ⟨rfl, rfl⟩ := List.cons.inj hbehind
          obtain ⟨rfl, -⟩ := hwritten.eq_of_quote hd
          rw [backslashes_concat_backslash]
          refine iff_of_false ?_ (by simp)
          rw [Nat.even_add_one]
          exact not_not_intro hopen

/-- Of the quotes in a literal only the first and the last are not escaped. -/
theorem even_backslashes_iff_of_encodeChars (h : encodeChars cs = before ++ '"' :: behind) :
    Even (backslashes before) ↔ before = [] ∨ behind = [] := by
  cases before with
  | nil => exact iff_of_true .zero (.inl rfl)
  | cons first before =>
      rw [encodeChars, List.cons_append, List.cons_append] at h
      obtain ⟨rfl, hrest⟩ := List.cons.inj h
      have hopen : Even (backslashes ['"']) := .zero
      simpa using even_backslashes_iff_of_quote hopen hrest

end Written

/-! ## Byte strings -/

open Text (byteChars charBytes)

/-- The literal of a byte string. -/
def encodeBytes (text : List UInt8) : List UInt8 :=
  (encodeChars (byteChars text)).map Char.toUInt8

/-- What is read from a literal byte by byte. -/
def decodeBytes? (literal : List UInt8) : Option (List UInt8) :=
  match (byteChars literal).foldlM Scan.step .start with
  | some (.closed read) => some (read.map Char.toUInt8)
  | _ => none

/-- The literal is that of the text: no byte of it is below the blank, it is enclosed in quotes that
are the only ones in it that no backslash escapes, and the text is what is read from it. -/
structure IsLiteralOf (text literal : List UInt8) : Prop where
  printable : ∀ b ∈ literal, 0x20 ≤ b
  enclosed : ∃ inside, literal = '"'.toUInt8 :: inside ++ ['"'.toUInt8]
  quotes : ∀ before behind, literal = before ++ '"'.toUInt8 :: behind →
    (Even (backslashes (byteChars before)) ↔ before = [] ∨ behind = [])
  reads : decodeBytes? literal = some text

theorem mem_encodeChars {d : Char} {cs : List Char} (h : d ∈ encodeChars cs) :
    d = '"' ∨ ∃ c ∈ cs, d ∈ encodeChar c := by
  simp only [encodeChars, List.cons_append, List.mem_cons, List.mem_append, List.mem_flatMap,
    List.not_mem_nil, or_false] at h
  rcases h with hquote | hwritten | hquote
  · exact .inl hquote
  · exact .inr hwritten
  · exact .inl hquote

/-- The characters of a literal of bytes are the literal of their characters. -/
theorem byteChars_encodeBytes (text : List UInt8) :
    byteChars (encodeBytes text) = encodeChars (byteChars text) := by
  apply Text.byteChars_map_toUInt8
  intro d hd
  rcases mem_encodeChars hd with rfl | ⟨c, hc, hd⟩
  · decide
  rcases (written_encodeChar c).eq_or_toNat_lt d hd with rfl | hascii
  · obtain ⟨b, -, rfl⟩ := List.mem_map.1 hc
    rw [Text.toNat_ofUInt8]
    exact b.toNat_lt
  · omega

theorem isLiteralOf_encodeBytes (text : List UInt8) : IsLiteralOf text (encodeBytes text) where
  printable := by
    intro b hb
    have hchar : Char.ofUInt8 b ∈ encodeChars (byteChars text) := by
      rw [← byteChars_encodeBytes]
      exact List.mem_map_of_mem hb
    rw [UInt8.le_iff_toNat_le, ← Text.toNat_ofUInt8 b]
    rcases mem_encodeChars hchar with hquote | ⟨c, -, hd⟩
    · rw [hquote]
      decide
    · exact (written_encodeChar c).le_toNat _ hd
  enclosed := ⟨((byteChars text).flatMap encodeChar).map Char.toUInt8, by
    simp [encodeBytes, encodeChars]⟩
  quotes := by
    intro before behind h
    have hquote : Char.ofUInt8 '"'.toUInt8 = '"' := by decide
    have hchars : encodeChars (byteChars text) = byteChars before ++ '"' :: byteChars behind := by
      rw [← byteChars_encodeBytes, h]
      simp [byteChars, hquote]
    simpa [byteChars] using even_backslashes_iff_of_encodeChars hchars
  reads := by
    rw [decodeBytes?, byteChars_encodeBytes, scan_encodeChars]
    exact congrArg some (Text.map_toUInt8_byteChars text)

theorem encodeBytes_injective : Function.Injective encodeBytes := by
  intro text text' h
  have hread := (isLiteralOf_encodeBytes text').reads
  rw [← h, (isLiteralOf_encodeBytes text).reads] at hread
  exact Option.some.inj hread

/-! ## Texts -/

theorem encodeChar_of_le {c : Char} (h : 128 ≤ c.toNat) : encodeChar c = [c] := by
  rw [encodeChar, if_neg, if_neg, if_neg, if_neg, if_neg, if_neg (by omega)]
  all_goals
    rintro rfl
    exact absurd h (by decide)

/-- It makes no difference whether a character is written or its bytes are. -/
theorem flatMap_charBytes_encodeChar (c : Char) :
    (encodeChar c).flatMap charBytes = (charBytes c).flatMap encodeChar := by
  rcases Nat.lt_or_ge c.toNat 128 with h | h
  · have hself : ∀ d ∈ encodeChar c, charBytes d = [d] := by
      intro d hd
      apply Text.charBytes_of_lt
      rcases (written_encodeChar c).eq_or_toNat_lt d hd with rfl | hascii
      · exact h
      · exact hascii
    rw [Text.charBytes_of_lt h, List.flatMap_singleton, List.flatMap_congr hself,
      List.flatMap_singleton']
  · have hself : ∀ d ∈ charBytes c, encodeChar d = [d] :=
      fun d hd => encodeChar_of_le (Text.le_toNat_of_mem_charBytes h d hd)
    rw [encodeChar_of_le h, List.flatMap_singleton, List.flatMap_congr hself,
      List.flatMap_singleton']

theorem flatMap_charBytes_encodeChars (cs : List Char) :
    (encodeChars cs).flatMap charBytes = encodeChars (cs.flatMap charBytes) := by
  have hquote : charBytes '"' = ['"'] := Text.charBytes_of_lt (by decide)
  have hinside : (cs.flatMap encodeChar).flatMap charBytes =
      (cs.flatMap charBytes).flatMap encodeChar := by
    rw [List.flatMap_assoc, List.flatMap_assoc]
    exact List.flatMap_congr fun c _ => flatMap_charBytes_encodeChar c
  simp [encodeChars, hquote, hinside]

/-- The bytes of the literal of a text are the literal of its bytes. -/
theorem bytes_encode (text : String) :
    Text.bytes (encode text) = encodeBytes (Text.bytes text) := by
  apply Text.byteChars_injective
  rw [byteChars_encodeBytes, Text.byteChars_bytes, Text.byteChars_bytes, encode,
    String.toList_ofList, flatMap_charBytes_encodeChars]

theorem encode_injective : Function.Injective encode := by
  intro text text' h
  apply String.toList_inj.1
  have hread := scan_encodeChars text'.toList
  rw [← String.ofList_inj.1 h, scan_encodeChars] at hread
  exact Scan.closed.inj (Option.some.inj hread)

/-- Every byte string has a literal of its own, from which it is read again. The literal of a text
is the literal of its bytes, and it is that of no other text. -/
theorem literal_of_every_byteString :
    (∀ text : List UInt8, IsLiteralOf text (encodeBytes text)) ∧
    Function.Injective encodeBytes ∧
    (∀ text : String, Text.bytes (encode text) = encodeBytes (Text.bytes text)) ∧
    Function.Injective encode :=
  ⟨isLiteralOf_encodeBytes, encodeBytes_injective, bytes_encode, encode_injective⟩

end PklBindings.Quoted
