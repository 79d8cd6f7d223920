import Mathlib.Data.List.TakeWhile
import Mathlib.Data.String.Basic
import PklBindings.Text

/-!
# Texts and their bytes

Texts are compared character by character, and that is the order of their bytes in UTF-8
(`Text.bytes_lt_bytes_iff`): of two characters, the one with the greater code has the greater byte
at the first place where the bytes of the two differ. A text without a NUL is shown as a whole
(`Text.untilNul_of_notMem`). Where single bytes are looked at, each counts as the character of its
number (`Text.byteChars`): an ASCII character is its own byte (`Text.charBytes_of_lt`), and all
bytes of another character are beyond ASCII (`Text.le_toNat_of_mem_charBytes`).
-/

namespace PklBindings.Text

theorem untilNul_of_notMem {s : String} (h : '\x00' ∉ s.toList) : untilNul s = s := by
  rw [untilNul, List.takeWhile_eq_self_iff.2 ?_, String.ofList_toList]
  intro c hc
  rw [decide_eq_true_eq]
  rintro rfl
  exact h hc

/-! ## The order of bytes -/

/-- The bytes of a text. -/
def bytes (s : String) : List UInt8 :=
  s.toUTF8.data.toList

theorem bytes_eq_flatMap (s : String) : bytes s = s.toList.flatMap String.utf8EncodeChar := by
  rw [bytes, String.toUTF8, ← String.utf8Encode_toList, List.utf8Encode, List.data_toByteArray]

theorem ofNat_eq_ofNat_iff {m n : Nat} (hm : m < UInt8.size) (hn : n < UInt8.size) :
    UInt8.ofNat m = UInt8.ofNat n ↔ m = n := by
  rw [← UInt8.toNat_inj, UInt8.toNat_ofNat_of_lt' hm, UInt8.toNat_ofNat_of_lt' hn]

theorem charCode_lt (c : Char) : c.val.toNat < 0x110000 := by
  have hvalid := c.valid
  simp only [UInt32.isValidChar, Nat.isValidChar] at hvalid
  omega

/-- What starts with the lesser character comes first, whatever follows. -/
theorem utf8EncodeChar_append_lt {c d : Char} (h : c < d) (rest rest' : List UInt8) :
    String.utf8EncodeChar c ++ rest < String.utf8EncodeChar d ++ rest' := by
  have hcode : c.val.toNat < d.val.toNat := h
  have hc := charCode_lt c
  have hd := charCode_lt d
  -- The bytes hold the digits of the code to the base 64, the highest first.
  have hdigits (k : Nat) : k / 4096 = k / 64 / 64 ∧ k / 262144 = k / 64 / 64 / 64 := by
    simp only [Nat.div_div_eq_div_mul, and_self]
  simp only [String.utf8EncodeChar, (hdigits _).1, (hdigits _).2]
  generalize c.val.toNat = m at *
  generalize d.val.toNat = n at *
  have hsize : UInt8.size = 256 := rfl
  split_ifs
  -- A greater code has no fewer bytes, and the first byte tells how many there are.
  all_goals try omega
  all_goals
    simp (disch := omega) only [List.cons_append, List.nil_append, List.cons_lt_cons_iff,
      UInt8.ofNat_lt_iff_lt, ofNat_eq_ofNat_iff]
    omega

theorem flatMap_utf8EncodeChar_lt {cs ds : List Char} (h : cs < ds) :
    cs.flatMap String.utf8EncodeChar < ds.flatMap String.utf8EncodeChar := by
  induction cs generalizing ds with
  | nil =>
      cases ds with
      | nil => cases h
      | cons d ds =>
          obtain ⟨byte, rest, hbytes⟩ :=
            List.exists_cons_of_ne_nil (String.utf8EncodeChar_ne_nil (c := d))
          rw [List.flatMap_nil, List.flatMap_cons, hbytes]
          exact List.nil_lt_cons _ _
  | cons c cs ih =>
      cases ds with
      | nil => cases h
      | cons d ds =>
          rw [List.flatMap_cons, List.flatMap_cons]
          rcases List.cons_lt_cons_iff.1 h with hlt | ⟨rfl, hrest⟩
          · exact utf8EncodeChar_append_lt hlt _ _
          · exact List.append_left_lt (ih hrest)

/-- Texts compare as their bytes do. -/
theorem bytes_lt_bytes_iff {s t : String} : bytes s < bytes t ↔ s < t := by
  have hmono {s t : String} (h : s < t) : bytes s < bytes t := by
    rw [bytes_eq_flatMap, bytes_eq_flatMap]
    exact flatMap_utf8EncodeChar_lt (String.lt_iff_toList_lt.1 h)
  refine ⟨fun h => ?_, hmono⟩
  rcases lt_trichotomy s t with hlt | rfl | hgt
  · exact hlt
  · exact absurd h (List.lt_irrefl _)
  · exact absurd (hmono hgt) (List.lt_asymm h)

/-! ## Bytes as characters -/

/-- Each byte as the character of its number. -/
def byteChars (bs : List UInt8) : List Char :=
  bs.map Char.ofUInt8

theorem toUInt8_ofUInt8 (b : UInt8) : (Char.ofUInt8 b).toUInt8 = b :=
  UInt8.toUInt8_toUInt32 b

theorem toNat_ofUInt8 (b : UInt8) : (Char.ofUInt8 b).toNat = b.toNat :=
  UInt8.toNat_toUInt32 b

theorem ofUInt8_toUInt8 {c : Char} (h : c.toNat < 256) : Char.ofUInt8 c.toUInt8 = c := by
  apply Char.toNat_inj.1
  rw [toNat_ofUInt8]
  exact UInt32.toNat_toUInt8 c.val ▸ Nat.mod_eq_of_lt h

theorem map_toUInt8_byteChars (bs : List UInt8) : (byteChars bs).map Char.toUInt8 = bs := by
  have hself : Char.toUInt8 ∘ Char.ofUInt8 = id := funext toUInt8_ofUInt8
  rw [byteChars, List.map_map, hself, List.map_id]

theorem byteChars_map_toUInt8 {cs : List Char} (h : ∀ c ∈ cs, c.toNat < 256) :
    byteChars (cs.map Char.toUInt8) = cs := by
  rw [byteChars, List.map_map]
  exact (List.map_congr_left fun c hc => ofUInt8_toUInt8 (h c hc)).trans (List.map_id cs)

theorem byteChars_injective : Function.Injective byteChars :=
  Function.LeftInverse.injective map_toUInt8_byteChars

/-- The bytes of a character, each as the character of its number. -/
def charBytes (c : Char) : List Char :=
  byteChars (String.utf8EncodeChar c)

theorem byteChars_bytes (s : String) : byteChars (bytes s) = s.toList.flatMap charBytes := by
  rw [bytes_eq_flatMap, byteChars, List.map_flatMap]
  rfl

theorem charBytes_ne_nil (c : Char) : charBytes c ≠ [] := by
  rw [charBytes, byteChars, ne_eq, List.map_eq_nil_iff]
  exact String.utf8EncodeChar_ne_nil

theorem length_charBytes (c : Char) : (charBytes c).length = c.utf8Size := by
  rw [charBytes, byteChars, List.length_map, String.length_utf8EncodeChar]

/-- An ASCII character is its own byte. -/
theorem charBytes_of_lt {c : Char} (h : c.toNat < 128) : charBytes c = [c] := by
  have hcode : c.val.toNat ≤ 127 := Nat.le_of_lt_succ h
  have hbyte : Char.ofUInt8 (UInt8.ofNat c.val.toNat) = c := ofUInt8_toUInt8 (by omega)
  rw [charBytes, String.utf8EncodeChar, if_pos hcode, byteChars, List.map_singleton, hbyte]

theorem le_toNat_of_mem_utf8EncodeChar {c : Char} (h : 128 ≤ c.toNat) :
    ∀ b ∈ String.utf8EncodeChar c, 128 ≤ b.toNat := by
  have hcode : ¬ c.val.toNat ≤ 127 := Nat.not_le_of_lt h
  rw [String.utf8EncodeChar, if_neg hcode]
  -- The first of several bytes tells their number, and the others begin with the bits 10.
  split_ifs
  all_goals
    simp only [List.forall_mem_cons, List.not_mem_nil, UInt8.toNat_ofNat', false_imp_iff,
      implies_true, and_true]
    omega

/-- All bytes of a character beyond ASCII are beyond ASCII. -/
theorem le_toNat_of_mem_charBytes {c : Char} (h : 128 ≤ c.toNat) :
    ∀ d ∈ charBytes c, 128 ≤ d.toNat := by
  intro d hd
  obtain ⟨b, hb, rfl⟩ := List.mem_map.1 hd
  rw [toNat_ofUInt8]
  exact le_toNat_of_mem_utf8EncodeChar h b hb

end PklBindings.Text
