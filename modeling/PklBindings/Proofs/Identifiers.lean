import PklBindings.Proofs.ModuleNames

/-!
# Valid identifiers

A name that Python takes for an identifier is not empty, does not start with a digit, is of the
characters of identifiers and is not reserved (`Identifier.IsIdentifier`). Every text is made into
such a name (`Identifier.isIdentifier_ofText`).
-/

namespace PklBindings.Identifier

/-- An identifier that Python does not reserve. -/
structure IsIdentifier (name : String) : Prop where
  start : ∃ c cs, name.toList = c :: cs ∧ c.isDigit = false
  chars : ∀ c ∈ name.toList, isNameChar c = true
  not_keyword : isKeyword name = false

/-! ## Characters -/

theorem toNat_lt_of_isNameChar {c : Char} (h : isNameChar c = true) : c.toNat < 128 := by
  have hranges : (decide (c.val ≥ 'A'.val ∧ c.val ≤ 'Z'.val) ||
      (c.val ≥ 'a'.val && c.val ≤ 'z'.val) || (c.val ≥ '0'.val && c.val ≤ '9'.val) ||
      decide (c = '_')) = true := h
  simp only [Bool.or_eq_true, Bool.and_eq_true, decide_eq_true_eq, UInt32.le_iff_toNat_le,
    ge_iff_le] at hranges
  rcases hranges with ((h | h) | h) | rfl
  · exact Nat.lt_of_le_of_lt h.2 (by decide)
  · exact Nat.lt_of_le_of_lt h.2 (by decide)
  · exact Nat.lt_of_le_of_lt h.2 (by decide)
  · decide

/-- What holds of all ASCII characters that may stand in identifiers holds of all characters that
may. -/
theorem of_isNameChar {p : Char → Prop}
    (hascii : ∀ n < 128, isNameChar (.ofNat n) = true → p (.ofNat n)) {c : Char}
    (h : isNameChar c = true) : p c := by
  have hself := Char.ofNat_toNat c
  rw [← hself]
  apply hascii c.toNat (toNat_lt_of_isNameChar h)
  rwa [hself]

theorem isNameChar_of_isAlphanum {c : Char} (h : c.isAlphanum = true) : isNameChar c = true := by
  simp [isNameChar, h]

theorem isNameChar_of_isUpper {c : Char} (h : c.isUpper = true) : isNameChar c = true := by
  show (c.isUpper || c.isLower || c.isDigit || decide (c = '_')) = true
  rw [h, Bool.true_or, Bool.true_or, Bool.true_or]

theorem isNameChar_of_isDigit {c : Char} (h : c.isDigit = true) : isNameChar c = true := by
  simp [isNameChar, Char.isAlphanum, h]

theorem isDigit_of_isUpper {c : Char} (h : c.isUpper = true) : c.isDigit = false :=
  of_isNameChar (p := fun c => c.isUpper = true → c.isDigit = false) (by decide)
    (isNameChar_of_isUpper h) h

/-! ## Identifiers of texts -/

theorem flatMap_nameChars_of_forall {cs : List Char} (h : ∀ c ∈ cs, isNameChar c = true) :
    cs.flatMap nameChars = cs := by
  have hself : ∀ c ∈ cs, nameChars c = [c] := fun c hc => if_pos (h c hc)
  rw [List.flatMap_congr hself, List.flatMap_singleton']

theorem isKeyword_eq_false_iff {word : String} : isKeyword word = false ↔ word ∉ keywords := by
  rw [← Bool.not_eq_true, isKeyword, List.contains_iff_mem]

/-- No keyword ends with an underscore, so one behind a keyword is enough. -/
theorem isKeyword_guardKeyword (word : List Char) :
    isKeyword (.ofList (guardKeyword word)) = false := by
  cases hkeyword : isKeyword (.ofList word) with
  | false => rw [guardKeyword, hkeyword, if_neg Bool.false_ne_true, hkeyword]
  | true =>
      have hends : ∀ keyword ∈ keywords, keyword.toList.getLast? ≠ some '_' := by decide
      rw [guardKeyword, if_pos hkeyword, isKeyword_eq_false_iff]
      intro hmem
      apply hends _ hmem
      rw [String.toList_ofList, List.getLast?_concat]

/-- No keyword starts with an underscore. -/
theorem guardKeyword_underscore_cons (cs : List Char) : guardKeyword ('_' :: cs) = '_' :: cs := by
  have hstarts : ∀ keyword ∈ keywords, keyword.toList.head? ≠ some '_' := by decide
  have hkeyword : isKeyword (.ofList ('_' :: cs)) = false := by
    rw [isKeyword_eq_false_iff]
    intro hmem
    apply hstarts _ hmem
    rw [String.toList_ofList, List.head?_cons]
  rw [guardKeyword, hkeyword, if_neg Bool.false_ne_true]

/-- The underscores that a word gets to be an identifier: one in place of nothing, one in front of a
digit at the start, and otherwise none or, behind a keyword, one. -/
inductive Guards : (word guarded : List Char) → Prop where
  | nothing : Guards [] ['_']
  | digit {c : Char} {cs : List Char} (hc : c.isDigit = true) : Guards (c :: cs) ('_' :: c :: cs)
  | letter {c : Char} {cs behind : List Char} (hc : c.isDigit = false)
    (hbehind : behind = [] ∨ behind = ['_']) : Guards (c :: cs) (c :: (cs ++ behind))

theorem guards (word : List Char) : Guards word (guardKeyword (guardStart word)) := by
  cases word with
  | nil =>
      rw [guardStart, guardKeyword_underscore_cons]
      exact .nothing
  | cons c cs =>
      cases hdigit : c.isDigit with
      | true =>
          rw [guardStart, if_pos hdigit, guardKeyword_underscore_cons]
          exact .digit hdigit
      | false =>
          rw [guardStart, hdigit, if_neg Bool.false_ne_true, guardKeyword]
          split
          · exact .letter hdigit (.inr rfl)
          · have hplain : Guards (c :: cs) (c :: (cs ++ [])) := .letter hdigit (.inl rfl)
            rwa [List.append_nil] at hplain

theorem Guards.start {word guarded : List Char} (h : Guards word guarded) :
    ∃ c cs, guarded = c :: cs ∧ c.isDigit = false := by
  cases h with
  | nothing => exact ⟨'_', [], rfl, by decide⟩
  | digit _ => exact ⟨'_', _, rfl, by decide⟩
  | letter hc _ => exact ⟨_, _, rfl, hc⟩

/-- The identifier of a text is one, and Python does not reserve it. -/
theorem isIdentifier_ofText (text : String) : IsIdentifier (ofText text) where
  start := by
    rw [ofText, String.toList_ofList]
    exact (guards _).start
  chars := fun _ => isNameChar_of_mem_ofText
  not_keyword := isKeyword_guardKeyword _

end PklBindings.Identifier
