import PklBindings.Proofs.Identifiers

/-!
# Names in snake case

The words of a text in snake case are of small letters and digits, with single underscores between
them (`Identifier.areWords_joinWords`), and there are none exactly when the text has neither letters
nor digits (`Identifier.joinWords_eq_nil_iff`). Underscores at the rims of a name come from
elsewhere: there is one in front of a digit, one behind a keyword, and one in place of nothing
(`Identifier.upperShape`).
-/

namespace PklBindings.Identifier

/-- There is nothing in the text to make words of. -/
def IsWordless (text : String) : Prop :=
  ∀ c ∈ text.toList, c.isAlphanum = false

/-! ## Words -/

/-- A letter in lower case, or a digit. -/
def IsSmall (c : Char) : Prop :=
  c.isAlphanum = true ∧ c.isUpper = false

/-- What stands behind the first letter or digit of words in snake case. -/
inductive Continues : List Char → Prop where
  | nil : Continues []
  | inWord {c : Char} {cs : List Char} (hc : IsSmall c) (hcs : Continues cs) : Continues (c :: cs)
  | newWord {c : Char} {cs : List Char} (hc : IsSmall c) (hcs : Continues cs) :
    Continues ('_' :: c :: cs)

/-- Words in snake case: small letters and digits, with single underscores between them. -/
inductive AreWords : List Char → Prop where
  | none : AreWords []
  | some {c : Char} {cs : List Char} (hc : IsSmall c) (hcs : Continues cs) : AreWords (c :: cs)

section Words

variable {started : Bool} {before c d : Char} {cs : List Char}

theorem isSmall_toLower (h : c.isAlphanum = true) : IsSmall c.toLower :=
  of_isNameChar (p := fun c => c.isAlphanum = true → IsSmall c.toLower)
    (by unfold IsSmall; decide) (isNameChar_of_isAlphanum h) h

theorem isUpper_toUpper (h : c.isAlphanum = true) (hdigit : c.isDigit = false) :
    c.toUpper.isUpper = true :=
  of_isNameChar
    (p := fun c => c.isAlphanum = true → c.isDigit = false → c.toUpper.isUpper = true) (by decide)
    (isNameChar_of_isAlphanum h) h hdigit

theorem isAlphanum_toUpper (h : c.isAlphanum = true) : c.toUpper.isAlphanum = true :=
  of_isNameChar (p := fun c => c.isAlphanum = true → c.toUpper.isAlphanum = true) (by decide)
    (isNameChar_of_isAlphanum h) h

theorem ne_underscore_of_isAlphanum (h : c.isAlphanum = true) : c ≠ '_' := by
  rintro rfl
  exact absurd h (by decide)

theorem joinWords_cons_of_not (h : c.isAlphanum = false) :
    joinWords started before (c :: cs) = joinWords started c cs := by
  rw [joinWords, h, if_neg Bool.false_ne_true]

/-- In front of a letter or a digit stands an underscore or nothing, and nothing where no word has
been written. -/
theorem exists_joinWords_cons (started : Bool) (before : Char) (cs : List Char)
    (h : c.isAlphanum = true) :
    ∃ gap, joinWords started before (c :: cs) = gap ++ c.toLower :: joinWords true c cs ∧
      (gap = [] ∨ started = true ∧ gap = ['_']) := by
  refine ⟨_, by rw [joinWords, if_pos h], ?_⟩
  cases started with
  | false => exact .inl rfl
  | true =>
      split
      · exact .inr ⟨rfl, rfl⟩
      · exact .inl rfl

theorem continues_joinWords (before : Char) (cs : List Char) :
    Continues (joinWords true before cs) := by
  induction cs generalizing before with
  | nil => exact .nil
  | cons c cs ih =>
      cases hc : c.isAlphanum with
      | false =>
          rw [joinWords_cons_of_not hc]
          exact ih c
      | true =>
          obtain ⟨gap, heq, rfl | ⟨-, rfl⟩⟩ := exists_joinWords_cons true before cs hc
          · rw [heq]
            exact .inWord (isSmall_toLower hc) (ih c)
          · rw [heq]
            exact .newWord (isSmall_toLower hc) (ih c)

theorem areWords_joinWords (before : Char) (cs : List Char) :
    AreWords (joinWords false before cs) := by
  induction cs generalizing before with
  | nil => exact .none
  | cons c cs ih =>
      cases hc : c.isAlphanum with
      | false =>
          rw [joinWords_cons_of_not hc]
          exact ih c
      | true =>
          obtain ⟨gap, heq, rfl | ⟨hstarted, -⟩⟩ := exists_joinWords_cons false before cs hc
          · rw [heq]
            exact .some (isSmall_toLower hc) (continues_joinWords c cs)
          · cases hstarted

theorem joinWords_eq_nil_iff :
    joinWords started before cs = [] ↔ ∀ c ∈ cs, c.isAlphanum = false := by
  induction cs generalizing started before with
  | nil => simp [joinWords]
  | cons c cs ih =>
      rw [List.forall_mem_cons]
      cases hc : c.isAlphanum with
      | false => rw [joinWords_cons_of_not hc, ih, eq_self, true_and]
      | true =>
          obtain ⟨gap, heq, -⟩ := exists_joinWords_cons started before cs hc
          simp [heq]

theorem Continues.isSmall_or_eq (h : Continues cs) : ∀ c ∈ cs, IsSmall c ∨ c = '_' := by
  induction h with
  | nil => simp
  | inWord hc _ ih => exact List.forall_mem_cons.2 ⟨.inl hc, ih⟩
  | newWord hc _ ih =>
      exact List.forall_mem_cons.2 ⟨.inr rfl, List.forall_mem_cons.2 ⟨.inl hc, ih⟩⟩

theorem AreWords.isSmall_or_eq (h : AreWords cs) : ∀ c ∈ cs, IsSmall c ∨ c = '_' := by
  cases h with
  | none => simp
  | some hc hcs => exact List.forall_mem_cons.2 ⟨.inl hc, hcs.isSmall_or_eq⟩

theorem AreWords.isNameChar (h : AreWords cs) : ∀ c ∈ cs, isNameChar c = true := by
  intro c hc
  rcases h.isSmall_or_eq c hc with hsmall | rfl
  · exact isNameChar_of_isAlphanum hsmall.1
  · decide

/-- The last word ends with a letter or a digit. -/
theorem Continues.isAlphanum_getLast? (h : Continues cs) (hc : c.isAlphanum = true)
    (hlast : (c :: cs).getLast? = some d) : d.isAlphanum = true := by
  induction h generalizing c with
  | nil =>
      cases hlast
      exact hc
  | inWord hc' _ ih =>
      rw [List.getLast?_cons_cons] at hlast
      exact ih hc'.1 hlast
  | newWord hc' _ ih =>
      rw [List.getLast?_cons_cons, List.getLast?_cons_cons] at hlast
      exact ih hc'.1 hlast

end Words

/-! ## Upper snake case -/

/-- The rims of the name of a text in upper snake case. Only an underscore in front of a digit and
the underscore in place of nothing begin a name, and a name that begins with one of a digit does
not end with another. -/
inductive UpperShape (text : String) : Prop where
  | wordless (hwordless : IsWordless text) (hname : upperSnakeCase text = "_")
  | letter {c : Char} {cs : List Char} (hword : ¬ IsWordless text)
    (hname : (upperSnakeCase text).toList = c :: cs) (hc : c.isUpper = true)
  | digit {c : Char} {cs : List Char} (hword : ¬ IsWordless text)
    (hname : (upperSnakeCase text).toList = '_' :: c :: cs) (hc : c.isDigit = true)
    (hlast : ∀ last, (upperSnakeCase text).toList.getLast? = some last → last ≠ '_')

/-- The identifier of words, with the words already at hand. -/
theorem toList_ofText_joinWords (before : Char) (cs : List Char) :
    (ofText (.ofList (joinWords false before cs))).toList =
      guardKeyword (guardStart (joinWords false before cs)) := by
  have hself : (joinWords false before cs).flatMap nameChars = joinWords false before cs :=
    flatMap_nameChars_of_forall (areWords_joinWords before cs).isNameChar
  rw [ofText, String.toList_ofList, String.toList_ofList, hself]

/-- The name in upper snake case, with the words already at hand. -/
theorem toList_upperSnakeCase (text : String) :
    (upperSnakeCase text).toList =
      (guardKeyword (guardStart (joinWords false '\x00' text.toList))).map Char.toUpper := by
  rw [upperSnakeCase, snakeCase, String.toList_ofList, toList_ofText_joinWords]

theorem toUpper_of_isDigit {c : Char} (h : c.isDigit = true) : c.toUpper = c :=
  of_isNameChar (p := fun c => c.isDigit = true → c.toUpper = c) (by decide)
    (isNameChar_of_isDigit h) h

theorem upperShape (text : String) : UpperShape text := by
  have hname := toList_upperSnakeCase text
  have hguards := guards (joinWords false '\x00' text.toList)
  generalize guardKeyword (guardStart (joinWords false '\x00' text.toList)) = guarded
    at hname hguards
  have hword : joinWords false '\x00' text.toList ≠ [] → ¬ IsWordless text :=
    mt joinWords_eq_nil_iff.2
  have hnone : joinWords false '\x00' text.toList = [] → IsWordless text :=
    joinWords_eq_nil_iff.1
  have hwords := areWords_joinWords '\x00' text.toList
  generalize joinWords false '\x00' text.toList = words at hguards hword hnone hwords
  cases hwords with
  | none =>
      cases hguards
      exact .wordless (hnone rfl) (String.toList_inj.1 hname)
  | some hc hcs =>
      specialize hword (List.cons_ne_nil _ _)
      cases hguards with
      | digit hdigit =>
          rw [List.map_cons, List.map_cons, toUpper_of_isDigit hdigit] at hname
          refine .digit hword hname hdigit ?_
          intro last hlast
          -- The last character is that of the last word.
          rw [hname, List.getLast?_cons_cons, ← toUpper_of_isDigit hdigit, ← List.map_cons,
            List.getLast?_map, Option.map_eq_some_iff] at hlast
          obtain ⟨lower, hlower, rfl⟩ := hlast
          exact ne_underscore_of_isAlphanum
            (isAlphanum_toUpper (hcs.isAlphanum_getLast? hc.1 hlower))
      | letter hdigit _ => exact .letter hword hname (isUpper_toUpper hc.1 hdigit)

/-- Texts without letters and digits have one name, and no other text has it. -/
theorem upperSnakeCase_eq_underscore_iff {text : String} :
    upperSnakeCase text = "_" ↔ IsWordless text := by
  cases upperShape text with
  | wordless hwordless hname => exact iff_of_true hname hwordless
  | letter hword hname hc =>
      refine iff_of_false ?_ hword
      intro heq
      rw [heq] at hname
      cases hname
      exact absurd hc (by decide)
  | digit hword hname _ _ =>
      refine iff_of_false ?_ hword
      intro heq
      rw [heq] at hname
      cases hname

/-- The letters of a name in upper snake case are upper-case letters. -/
theorem isUpper_of_mem_upperSnakeCase {text : String} {c : Char}
    (h : c ∈ (upperSnakeCase text).toList) : c.isUpper = true ∨ c.isDigit = true ∨ c = '_' := by
  rw [upperSnakeCase, String.toList_ofList, List.mem_map] at h
  obtain ⟨lower, hlower, rfl⟩ := h
  exact of_isNameChar (p := fun c => c.toUpper.isUpper = true ∨ c.toUpper.isDigit = true ∨
    c.toUpper = '_') (by decide) (isNameChar_of_mem_ofText hlower)

end PklBindings.Identifier
