import Mathlib.Data.List.Chain
import PklBindings.Proofs.NamesOfBytes

/-!
# Names that stay as they are

An identifier is its own identifier (`Identifier.ofText_eq_self`), so making one again changes
nothing. A name in snake case is not told by its underscores alone, for there is one in front of a
digit and one behind a keyword: it stays because the words read from it are the words it was made
of (`Identifier.AreWords.joinWords_guarded`). All of this holds of byte strings that are no texts
as well (`Identifier.names_stay`).
-/

namespace PklBindings.Identifier

/-! ## Identifiers -/

theorem ofText_eq_self {name : String} (h : IsIdentifier name) : ofText name = name := by
  obtain ⟨c, cs, hname, hdigit⟩ := h.start
  have hstart : guardStart name.toList = name.toList := by
    rw [hname, guardStart, hdigit, if_neg Bool.false_ne_true]
  rw [ofText, flatMap_nameChars_of_forall h.chars, hstart, guardKeyword, String.ofList_toList,
    h.not_keyword, if_neg Bool.false_ne_true, String.ofList_toList]

/-! ## Words that are read again -/

section Words

variable {c before : Char} {cs behind guarded : List Char}

theorem IsSmall.toLower_eq (h : IsSmall c) : c.toLower = c :=
  of_isNameChar (p := fun c => c.isUpper = false → c.toLower = c) (by decide)
    (isNameChar_of_isAlphanum h.1) h.2

theorem IsSmall.startsWord_eq (h : IsSmall c) (before : Char) (after : Option Char) :
    startsWord before c after = false := by
  rw [startsWord, h.2, Bool.false_and]

/-- Behind a letter or a digit the words are read as they stand, and what has neither letters nor
digits is left out behind them. -/
theorem Continues.joinWords_append (h : Continues cs) (hbefore : before.isAlphanum = true)
    (hbehind : ∀ c ∈ behind, c.isAlphanum = false) :
    joinWords true before (cs ++ behind) = cs := by
  induction h generalizing before with
  | nil => exact joinWords_eq_nil_iff.2 hbehind
  | inWord hc _ ih =>
      rw [List.cons_append, joinWords, if_pos hc.1, hbefore, hc.startsWord_eq, hc.toLower_eq,
        ih hc.1]
      rfl
  | newWord hc _ ih =>
      -- The underscore is skipped, and written again because it stands in front of the word.
      rw [List.cons_append, List.cons_append, joinWords_cons_of_not (by decide), joinWords,
        if_pos hc.1, hc.toLower_eq, ih hc.1]
      rfl

theorem AreWords.joinWords_append (h : AreWords cs) (before : Char)
    (hbehind : ∀ c ∈ behind, c.isAlphanum = false) :
    joinWords false before (cs ++ behind) = cs := by
  cases h with
  | none => exact joinWords_eq_nil_iff.2 hbehind
  | some hc hcs =>
      rw [List.cons_append, joinWords, if_pos hc.1, hc.toLower_eq,
        hcs.joinWords_append hc.1 hbehind]
      rfl

/-- The underscores that words get to be an identifier are not read as part of the words. -/
theorem AreWords.joinWords_guarded (h : AreWords cs) (hguards : Guards cs guarded)
    (before : Char) : joinWords false before guarded = cs := by
  cases hguards with
  | nothing => rfl
  | @digit d ds _ =>
      have hplain : joinWords false '_' (d :: ds ++ []) = d :: ds :=
        h.joinWords_append '_' (by simp)
      rw [List.append_nil] at hplain
      rwa [joinWords_cons_of_not (by decide)]
  | letter _ hbehind =>
      apply h.joinWords_append before
      rcases hbehind with rfl | rfl <;> simp

/-! ## Names in snake case -/

/-- Behind a character that is no underscore, words and the underscore of a keyword add no two
underscores in a row. -/
theorem Continues.isChain_append (h : Continues cs) (hc : c ≠ '_')
    (hbehind : behind = [] ∨ behind = ['_']) :
    (c :: (cs ++ behind)).IsChain fun c d => c = '_' → d ≠ '_' := by
  induction h generalizing c with
  | nil => rcases hbehind with rfl | rfl <;> simp [hc]
  | @inWord d ds hd _ ih =>
      have hd' := ne_underscore_of_isAlphanum hd.1
      rw [List.cons_append, List.isChain_cons_cons]
      exact ⟨fun _ => hd', ih hd'⟩
  | @newWord d ds hd _ ih =>
      have hd' := ne_underscore_of_isAlphanum hd.1
      rw [List.cons_append, List.cons_append, List.isChain_cons_cons, List.isChain_cons_cons]
      exact ⟨fun h => absurd h hc, fun _ => hd', ih hd'⟩

theorem AreWords.isChain_guarded (h : AreWords cs) (hguards : Guards cs guarded) :
    guarded.IsChain fun c d => c = '_' → d ≠ '_' := by
  cases h with
  | none =>
      cases hguards
      exact .singleton '_'
  | some hc hcs =>
      have hc' := ne_underscore_of_isAlphanum hc.1
      cases hguards with
      | digit _ =>
          rw [List.isChain_cons_cons]
          exact ⟨fun _ => hc', by simpa using hcs.isChain_append hc' (.inl rfl)⟩
      | letter _ hbehind => exact hcs.isChain_append hc' hbehind

end Words

/-- An identifier without upper-case letters and without two underscores in a row. -/
structure IsSnakeCase (name : String) : Prop where
  identifier : IsIdentifier name
  lower : ∀ c ∈ name.toList, c.isUpper = false
  apart : ¬ ['_', '_'] <:+: name.toList

theorem isSnakeCase_ofText_joinWords (before : Char) (cs : List Char) :
    IsSnakeCase (ofText (.ofList (joinWords false before cs))) where
  identifier := isIdentifier_ofText _
  lower := by
    intro c hc
    rw [toList_ofText_joinWords] at hc
    rcases mem_or_eq_of_mem_guardKeyword hc with hc | rfl
    · rcases mem_or_eq_of_mem_guardStart hc with hc | rfl
      · rcases (areWords_joinWords before cs).isSmall_or_eq c hc with hsmall | rfl
        · exact hsmall.2
        · decide
      · decide
    · decide
  apart := by
    rintro ⟨front, rest, heq⟩
    have hchain := (areWords_joinWords before cs).isChain_guarded (guards _)
    rw [← toList_ofText_joinWords, ← heq] at hchain
    simpa using hchain.left_of_append.right_of_append

/-- Words are read from their identifier again, and so the identifier is the same. -/
theorem snakeCase_ofText_joinWords (before : Char) (cs : List Char) :
    snakeCase (ofText (.ofList (joinWords false before cs))) =
      ofText (.ofList (joinWords false before cs)) := by
  rw [snakeCase, toList_ofText_joinWords,
    (areWords_joinWords before cs).joinWords_guarded (guards _)]

/-! ## Letters and digits -/

/-- The letters, in lower case, and the digits. -/
def spelling (cs : List Char) : List Char :=
  (cs.filter Char.isAlphanum).map Char.toLower

theorem filter_joinWords (started : Bool) (before : Char) (cs : List Char) :
    (joinWords started before cs).filter Char.isAlphanum = spelling cs := by
  induction cs generalizing started before with
  | nil => rfl
  | cons c cs ih =>
      cases hc : c.isAlphanum with
      | false =>
          rw [joinWords_cons_of_not hc, ih, spelling, spelling, List.filter_cons_of_neg]
          simp [hc]
      | true =>
          obtain ⟨gap, heq, hgap⟩ := exists_joinWords_cons started before cs hc
          have hnone : gap.filter Char.isAlphanum = [] := by
            rcases hgap with rfl | ⟨-, rfl⟩ <;> decide
          rw [heq, List.filter_append, hnone, List.filter_cons_of_pos (isSmall_toLower hc).1, ih,
            spelling, spelling, List.filter_cons_of_pos hc]
          rfl

theorem Guards.filter_isAlphanum {word guarded : List Char} (h : Guards word guarded) :
    guarded.filter Char.isAlphanum = word.filter Char.isAlphanum := by
  have hunderscore : ['_'].filter Char.isAlphanum = [] := by decide
  cases h with
  | nothing => exact hunderscore
  | digit _ => exact List.filter_cons_of_neg (by decide)
  | @letter c cs behind _ hbehind =>
      have hnone : behind.filter Char.isAlphanum = [] := by
        rcases hbehind with rfl | rfl
        · rfl
        · exact hunderscore
      rw [← List.cons_append, List.filter_append, hnone, List.append_nil]

/-- A name in snake case spells what it was made of. -/
theorem filter_ofText_joinWords (before : Char) (cs : List Char) :
    (ofText (.ofList (joinWords false before cs))).toList.filter Char.isAlphanum = spelling cs := by
  rw [toList_ofText_joinWords, (guards _).filter_isAlphanum, filter_joinWords]

/-! ## Names that stay -/

/-- The identifier of a byte string is an identifier, and each identifier is its own, so it is made
once and for all. The name in snake case is made once and for all too, and has the letters and
digits of the byte string in their order. The names of a text are those of its bytes. -/
theorem names_stay :
    (∀ bytes : List UInt8, IsIdentifier (ofBytes bytes) ∧
      ofBytes (Text.bytes (ofBytes bytes)) = ofBytes bytes) ∧
    (∀ name : String, IsIdentifier name → ofBytes (Text.bytes name) = name) ∧
    (∀ bytes : List UInt8, IsSnakeCase (snakeCaseOfBytes bytes) ∧
      (snakeCaseOfBytes bytes).toList.filter Char.isAlphanum = spelling (Text.byteChars bytes) ∧
      snakeCaseOfBytes (Text.bytes (snakeCaseOfBytes bytes)) = snakeCaseOfBytes bytes) ∧
    ∀ text : String, ofText text = ofBytes (Text.bytes text) ∧
      snakeCase text = snakeCaseOfBytes (Text.bytes text) := by
  have hidentifier : ∀ bytes : List UInt8, IsIdentifier (ofBytes bytes) := by
    intro bytes
    rw [ofBytes_eq_ofText]
    exact isIdentifier_ofText _
  have hself : ∀ name : String, IsIdentifier name → ofBytes (Text.bytes name) = name := by
    intro name hname
    rw [ofBytes_bytes, ofText_eq_self hname]
  refine ⟨fun bytes => ⟨hidentifier bytes, hself _ (hidentifier bytes)⟩, hself, ?_, ?_⟩
  · intro bytes
    refine ⟨isSnakeCase_ofText_joinWords _ _, filter_ofText_joinWords _ _, ?_⟩
    rw [snakeCaseOfBytes_bytes, snakeCaseOfBytes, snakeCase_ofText_joinWords]
  · intro text
    exact ⟨(ofBytes_bytes text).symm, (snakeCaseOfBytes_bytes text).symm⟩

/-- A keyword with its underscore is an identifier, and the name of that keyword in snake case. -/
theorem names_stay_keyword :
    IsIdentifier "class_" ∧ ofBytes (Text.bytes "class_") = "class_" ∧
      snakeCaseOfBytes (Text.bytes "Class") = "class_" ∧
      snakeCaseOfBytes (Text.bytes "class_") = "class_" := by
  have hkeyword : ofText "class" = "class_" := by decide
  have hname : IsIdentifier "class_" := hkeyword ▸ isIdentifier_ofText "class"
  obtain ⟨-, hself, hsnake, -⟩ := names_stay
  have hmade : snakeCaseOfBytes (Text.bytes "Class") = "class_" := by
    rw [snakeCaseOfBytes_bytes]
    decide
  have hstays := (hsnake (Text.bytes "Class")).2.2
  rw [hmade] at hstays
  exact ⟨hname, hself _ hname, hmade, hstays⟩

end PklBindings.Identifier
