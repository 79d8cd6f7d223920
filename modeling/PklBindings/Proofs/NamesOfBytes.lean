import PklBindings.Proofs.SnakeCase
import PklBindings.Proofs.Texts

/-!
# Names of byte strings

A name is made byte by byte, so a byte string that is no text has one too
(`Identifier.ofBytes`, `Identifier.snakeCaseOfBytes`). The name of a text is that of its bytes
(`Identifier.ofBytes_bytes`, `Identifier.snakeCaseOfBytes_bytes`): a character beyond ASCII counts
as what its bytes are, which are neither letters nor digits.
-/

namespace PklBindings.Identifier

open Text (byteChars charBytes)

/-- A byte as it stands in an identifier: itself or an underscore. -/
def nameByte (c : Char) : Char :=
  if isNameChar c then c else '_'

/-- The identifier of a byte string; the empty one has the identifier `_`. -/
def ofBytes (bytes : List UInt8) : String :=
  .ofList (guardKeyword (guardStart ((byteChars bytes).map nameByte)))

/-- The identifier of a byte string in lower snake case. -/
def snakeCaseOfBytes (bytes : List UInt8) : String :=
  ofText (.ofList (joinWords false '\x00' (byteChars bytes)))

section Bytes

variable {c : Char} {cs : List Char}

theorem isNameChar_eq_false_of_le (h : 128 ≤ c.toNat) : isNameChar c = false := by
  rw [← Bool.not_eq_true]
  intro hname
  exact absurd (toNat_lt_of_isNameChar hname) (Nat.not_lt_of_le h)

theorem isAlphanum_eq_false_of_le (h : 128 ≤ c.toNat) : c.isAlphanum = false := by
  have hname := isNameChar_eq_false_of_le h
  rw [isNameChar, Bool.or_eq_false_iff] at hname
  exact hname.1

theorem isLower_eq_false_of_le (h : 128 ≤ c.toNat) : c.isLower = false := by
  have hletter : (c.isUpper || c.isLower || c.isDigit) = false := isAlphanum_eq_false_of_le h
  rw [Bool.or_eq_false_iff, Bool.or_eq_false_iff] at hletter
  exact hletter.1.2

/-! ## Identifiers -/

theorem isNameChar_nameByte (c : Char) : isNameChar (nameByte c) = true := by
  rw [nameByte]
  split
  · assumption
  · decide

theorem map_nameByte_charBytes (c : Char) : (charBytes c).map nameByte = nameChars c := by
  cases hname : isNameChar c with
  | true =>
      rw [Text.charBytes_of_lt (toNat_lt_of_isNameChar hname), nameChars, if_pos hname,
        List.map_singleton, nameByte, if_pos hname]
  | false =>
      have hforeign : ∀ d ∈ charBytes c, nameByte d = '_' := by
        intro d hd
        have hd' : isNameChar d = false := by
          rcases Nat.lt_or_ge c.toNat 128 with h | h
          · rw [Text.charBytes_of_lt h, List.mem_singleton] at hd
            rwa [hd]
          · exact isNameChar_eq_false_of_le (Text.le_toNat_of_mem_charBytes h d hd)
        rw [nameByte, hd', if_neg Bool.false_ne_true]
      rw [nameChars, hname, if_neg Bool.false_ne_true, List.map_congr_left hforeign,
        List.map_const', Text.length_charBytes]

/-- The identifier of a text is that of its bytes. -/
theorem ofBytes_bytes (text : String) : ofBytes (Text.bytes text) = ofText text := by
  rw [ofBytes, Text.byteChars_bytes, List.map_flatMap, ofText]
  simp only [map_nameByte_charBytes]

theorem ofBytes_eq_ofText (bytes : List UInt8) :
    ofBytes bytes = ofText (.ofList ((byteChars bytes).map nameByte)) := by
  have hnames : ∀ c ∈ (byteChars bytes).map nameByte, isNameChar c = true := by
    intro c hc
    obtain ⟨b, -, rfl⟩ := List.mem_map.1 hc
    exact isNameChar_nameByte b
  rw [ofText, String.toList_ofList, flatMap_nameChars_of_forall hnames, ofBytes]

/-! ## Words -/

/-- What is neither letter nor digit only shows as what stands in front of the next word. -/
theorem joinWords_append_of_not {skipped : List Char} (hne : skipped ≠ [])
    (h : ∀ c ∈ skipped, c.isAlphanum = false) (started : Bool) (before : Char) (cs : List Char) :
    ∃ last, last.isAlphanum = false ∧
      joinWords started before (skipped ++ cs) = joinWords started last cs := by
  induction skipped generalizing before with
  | nil => exact absurd rfl hne
  | cons c skipped ih =>
      rw [List.forall_mem_cons] at h
      rw [List.cons_append, joinWords_cons_of_not h.1]
      cases skipped with
      | nil => exact ⟨c, h.1, rfl⟩
      | cons d skipped => exact ih (List.cons_ne_nil d skipped) h.2 c

theorem any_isLower_head?_flatMap_charBytes (cs : List Char) :
    (cs.flatMap charBytes).head?.any Char.isLower = cs.head?.any Char.isLower := by
  cases cs with
  | nil => rfl
  | cons c cs =>
      rcases Nat.lt_or_ge c.toNat 128 with h | h
      · rw [List.flatMap_cons, Text.charBytes_of_lt h]
        rfl
      · obtain ⟨d, ds, hbytes⟩ := List.exists_cons_of_ne_nil (Text.charBytes_ne_nil c)
        have hd : 128 ≤ d.toNat := Text.le_toNat_of_mem_charBytes h d (by simp [hbytes])
        rw [List.flatMap_cons, hbytes]
        simp [isLower_eq_false_of_le h, isLower_eq_false_of_le hd]

/-- The words of a text are those of its bytes. In front of the rest stands the same character in
both, or one that is neither letter nor digit. -/
theorem joinWords_flatMap_charBytes {before before' : Char} (started : Bool) (cs : List Char)
    (hbefore : before = before' ∨ before.isAlphanum = false ∧ before'.isAlphanum = false) :
    joinWords started before' (cs.flatMap charBytes) = joinWords started before cs := by
  induction cs generalizing started before before' with
  | nil => rfl
  | cons c cs ih =>
      rw [List.flatMap_cons]
      rcases Nat.lt_or_ge c.toNat 128 with h | h
      · rw [Text.charBytes_of_lt h, List.singleton_append]
        cases hc : c.isAlphanum with
        | false =>
            rw [joinWords_cons_of_not hc, joinWords_cons_of_not hc]
            exact ih started (.inl rfl)
        | true =>
            rw [joinWords, joinWords, if_pos hc, if_pos hc, ih true (.inl rfl), startsWord,
              startsWord, any_isLower_head?_flatMap_charBytes]
            rcases hbefore with rfl | ⟨hbefore, hbefore'⟩
            · rfl
            · rw [hbefore, hbefore', Bool.not_false, Bool.true_or, Bool.true_or]
      · -- The character is skipped, and so are its bytes: the last of them takes its place.
        have hc := isAlphanum_eq_false_of_le h
        obtain ⟨last, hlast, hskip⟩ := joinWords_append_of_not (Text.charBytes_ne_nil c)
          (fun d hd => isAlphanum_eq_false_of_le (Text.le_toNat_of_mem_charBytes h d hd))
          started before' (cs.flatMap charBytes)
        rw [hskip, joinWords_cons_of_not hc]
        exact ih started (.inr ⟨hc, hlast⟩)

/-- The name of a text in snake case is that of its bytes. -/
theorem snakeCaseOfBytes_bytes (text : String) :
    snakeCaseOfBytes (Text.bytes text) = snakeCase text := by
  rw [snakeCaseOfBytes, Text.byteChars_bytes, joinWords_flatMap_charBytes false _ (.inl rfl),
    snakeCase]

end Bytes

end PklBindings.Identifier
