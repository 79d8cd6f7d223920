import Mathlib.Data.List.Nodup
import PklBindings.Member.Enumeration
import PklBindings.Proofs.SnakeCase

/-!
# The names of enumeration constants

Every value of an enumeration has a constant of its own: a name that an earlier constant took gets
the least number that makes it free, and there is always such a number
(`EnumConstant.takes_freeName`). So the names of the constants are distinct
(`EnumConstant.names_nodup`). All of them are identifiers in upper case
(`EnumConstant.isConstantName_of_mem_namesFrom`), and what they are is said without the search that
finds them (`EnumConstant.areNames_names`).
-/

namespace PklBindings.EnumConstant

theorem toList_numbered (name : String) (k : Nat) :
    (numbered name k).toList = name.toList ++ '_' :: Nat.toDigits 10 k := by
  rw [numbered, String.toList_append, String.toList_append, Nat.toString_eq_repr, Nat.toList_repr,
    List.append_assoc]
  rfl

theorem numbered_injective (name : String) : Function.Injective (numbered name) := by
  intro k k' h
  have hchars := congrArg String.toList h
  rw [toList_numbered, toList_numbered] at hchars
  have hdigits := (List.cons.inj (List.append_cancel_left hchars)).2
  -- A number is read off its digits.
  have hread := congrArg (Nat.ofDigitChars 10 · 0) hdigits
  simpa [Nat.ofDigitChars_toDigits] using hread

/-- Of the names with numbers that are tried, one is free. -/
theorem exists_free_number (used : List String) (name : String) :
    ∃ k ∈ List.range' 2 (used.length + 1), numbered name k ∉ used := by
  by_contra hnone
  simp only [not_exists, not_and, not_not] at hnone
  -- All of them would be in use, and they are one more than the names in use.
  have hnodup : ((List.range' 2 (used.length + 1)).map (numbered name)).Nodup :=
    (List.nodup_range' 1).map (numbered_injective name)
  have hsubset : (List.range' 2 (used.length + 1)).map (numbered name) ⊆ used := by
    intro taken htaken
    obtain ⟨k, hk, rfl⟩ := List.mem_map.1 htaken
    exact hnone k hk
  have hlength := hnodup.length_le_of_subset hsubset
  rw [List.length_map, List.length_range'] at hlength
  omega

/-- The name of a constant that is `base` in upper snake case, behind the names `used`: `base`
itself if it is free, and otherwise `base` with the least number from two on that makes it free. No
more numbers have to be tried than there are names in use, and one more. -/
inductive Takes (used : List String) (base : String) : String → Prop where
  | free (hfree : base ∉ used) : Takes used base base
  | withNumber {k : Nat} (htaken : base ∈ used) (htwo : 2 ≤ k) (hfew : k ≤ used.length + 2)
    (hfree : numbered base k ∉ used) (hleast : ∀ j, 2 ≤ j → j < k → numbered base j ∈ used) :
    Takes used base (numbered base k)

theorem takes_freeName (used : List String) (base : String) :
    Takes used base (freeName used base) := by
  rw [freeName]
  split
  · rename_i htaken
    obtain ⟨k, hk, hfree⟩ := exists_free_number used base
    cases hfind : (List.range' 2 (used.length + 1)).find?
        fun k => !used.contains (numbered base k) with
    | none =>
        rw [List.find?_eq_none] at hfind
        exact absurd (by simpa using hfree) (hfind k hk)
    | some first =>
        obtain ⟨hfirst, hmem, hbefore⟩ := List.find?_range'_eq_some.1 hfind
        rw [List.mem_range'_1] at hmem
        refine .withNumber (by simpa using htaken) hmem.1 (by omega) (by simpa using hfirst) ?_
        intro j htwo hj
        simpa using hbefore j htwo hj
  · rename_i hfree
    exact .free (by simpa using hfree)

theorem Takes.notMem {used : List String} {base name : String} (h : Takes used base name) :
    name ∉ used := by
  cases h with
  | free hfree => exact hfree
  | withNumber _ _ _ hfree _ => exact hfree

/-- It matters which names are in use, and not in which order they were taken. -/
theorem Takes.perm {used used' : List String} {base name : String} (h : Takes used base name)
    (hperm : used.Perm used') : Takes used' base name := by
  cases h with
  | free hfree => exact .free (mt hperm.mem_iff.2 hfree)
  | withNumber htaken htwo hfew hfree hleast =>
      refine .withNumber (hperm.mem_iff.1 htaken) htwo (hperm.length_eq ▸ hfew)
        (mt hperm.mem_iff.2 hfree) ?_
      intro j hj hlt
      exact hperm.mem_iff.1 (hleast j hj hlt)

/-- The names of constants are none of those that earlier ones took. -/
theorem notMem_of_mem_namesFrom {used values : List String} {name : String}
    (h : name ∈ namesFrom used values) : name ∉ used := by
  induction values generalizing used with
  | nil => simp [namesFrom] at h
  | cons value values ih =>
      rw [namesFrom, List.mem_cons] at h
      rcases h with rfl | h
      · exact (takes_freeName used _).notMem
      · exact fun hused => ih h (List.mem_cons_of_mem _ hused)

theorem namesFrom_nodup (used values : List String) : (namesFrom used values).Nodup := by
  induction values generalizing used with
  | nil => exact List.nodup_nil
  | cons value values ih =>
      rw [namesFrom, List.nodup_cons]
      exact ⟨fun hmem => notMem_of_mem_namesFrom hmem List.mem_cons_self, ih _⟩

/-- The names of the constants of an enumeration are distinct. -/
theorem names_nodup (values : List String) : (names values).Nodup :=
  namesFrom_nodup [] values

theorem length_namesFrom (used values : List String) :
    (namesFrom used values).length = values.length := by
  induction values generalizing used with
  | nil => rfl
  | cons value values ih => simp [namesFrom, ih]

/-- Every constant takes a name behind the names of the constants in front of it. -/
theorem takes_of_namesFrom (used : List String) {values : List String} {i : Nat} {value : String}
    (h : values[i]? = some value) :
    ∃ name, (namesFrom used values)[i]? = some name ∧
      Takes (((namesFrom used values).take i).reverse ++ used) (Identifier.upperSnakeCase value)
        name := by
  induction values generalizing used i with
  | nil => cases h
  | cons first values ih =>
      rw [namesFrom]
      cases i with
      | zero =>
          cases h
          exact ⟨_, rfl, takes_freeName used _⟩
      | succ i =>
          -- The name of the first constant is in use for all others.
          obtain ⟨name, hname, htakes⟩ := ih (freeName used _ :: used) h
          refine ⟨name, hname, ?_⟩
          rwa [List.take_succ_cons, List.reverse_cons, List.append_assoc, List.singleton_append]

/-- The names of constants, one by one. -/
theorem takes_of_names {values : List String} {i : Nat} {value : String}
    (h : values[i]? = some value) :
    ∃ name, (names values)[i]? = some name ∧
      Takes ((names values).take i) (Identifier.upperSnakeCase value) name := by
  obtain ⟨name, hname, htakes⟩ := takes_of_namesFrom [] h
  rw [List.append_nil] at htakes
  exact ⟨name, hname, htakes.perm (List.reverse_perm _)⟩

theorem exists_value_of_names {values : List String} {i : Nat} {name : String}
    (h : (names values)[i]? = some name) :
    ∃ value, values[i]? = some value ∧
      Takes ((names values).take i) (Identifier.upperSnakeCase value) name := by
  have hlt : i < values.length := by
    rw [← length_namesFrom [] values]
    exact (List.getElem?_eq_some_iff.1 h).1
  obtain ⟨name', hname', htakes⟩ := takes_of_names (List.getElem?_eq_getElem hlt)
  obtain rfl : name = name' := Option.some.inj (h.symm.trans hname')
  exact ⟨_, List.getElem?_eq_getElem hlt, htakes⟩

/-! ## Their characters -/

/-- An identifier whose letters are upper-case letters. -/
structure IsConstantName (name : String) : Prop extends Identifier.IsIdentifier name where
  upper : ∀ c ∈ name.toList, c.isUpper = true ∨ c.isDigit = true ∨ c = '_'

/-- Every keyword has a lower-case letter, so upper-case names are not reserved. -/
theorem isConstantName_of_upper {name : String}
    (hstart : ∃ c cs, name.toList = c :: cs ∧ c.isDigit = false)
    (hupper : ∀ c ∈ name.toList, c.isUpper = true ∨ c.isDigit = true ∨ c = '_') :
    IsConstantName name where
  start := hstart
  chars := by
    intro c hc
    rcases hupper c hc with hletter | hdigit | rfl
    · exact Identifier.isNameChar_of_isUpper hletter
    · exact Identifier.isNameChar_of_isDigit hdigit
    · decide
  not_keyword := by
    have hlower : ∀ keyword ∈ Identifier.keywords,
        (keyword.toList.all fun c => c.isUpper || c.isDigit || c = '_') = false := by
      decide
    have hall : (name.toList.all fun c => c.isUpper || c.isDigit || c = '_') = true := by
      simpa [or_assoc] using hupper
    rw [Identifier.isKeyword_eq_false_iff]
    intro hmem
    rw [hlower name hmem] at hall
    cases hall
  upper := hupper

theorem isConstantName_upperSnakeCase (value : String) :
    IsConstantName (Identifier.upperSnakeCase value) := by
  refine isConstantName_of_upper ?_ fun c => Identifier.isUpper_of_mem_upperSnakeCase
  cases Identifier.upperShape value with
  | wordless _ hname => exact ⟨'_', [], by rw [hname]; rfl, by decide⟩
  | letter _ hname hc => exact ⟨_, _, hname, Identifier.isDigit_of_isUpper hc⟩
  | digit _ hname _ _ => exact ⟨_, _, hname, by decide⟩

theorem isConstantName_numbered {name : String} (h : IsConstantName name) (k : Nat) :
    IsConstantName (numbered name k) := by
  refine isConstantName_of_upper ?_ ?_
  · obtain ⟨c, cs, hname, hdigit⟩ := h.start
    exact ⟨c, _, by rw [toList_numbered, hname, List.cons_append], hdigit⟩
  · intro c hc
    rw [toList_numbered, List.mem_append, List.mem_cons] at hc
    rcases hc with hc | hc | hc
    · exact h.upper c hc
    · exact .inr (.inr hc)
    · exact .inr (.inl (Nat.isDigit_of_mem_toDigits (by decide) (Nat.le_refl 10) hc))

theorem Takes.isConstantName {used : List String} {base name : String} (h : Takes used base name)
    (hbase : IsConstantName base) : IsConstantName name := by
  cases h with
  | free _ => exact hbase
  | withNumber _ _ _ _ _ => exact isConstantName_numbered hbase _

theorem isConstantName_of_mem_namesFrom {used values : List String} {name : String}
    (h : name ∈ namesFrom used values) : IsConstantName name := by
  induction values generalizing used with
  | nil => simp [namesFrom] at h
  | cons value values ih =>
      rw [namesFrom, List.mem_cons] at h
      rcases h with rfl | h
      · exact (takes_freeName used _).isConstantName (isConstantName_upperSnakeCase value)
      · exact ih h

/-- The names of constants are made of the characters of identifiers. -/
theorem isNameChar_of_mem_namesFrom {used values : List String} {name : String}
    (h : name ∈ namesFrom used values) : ∀ c ∈ name.toList, Identifier.isNameChar c = true :=
  (isConstantName_of_mem_namesFrom h).chars

/-! ## All names of an enumeration -/

/-- The names of the constants for the values of an enumeration: one for each value, all of them
different, and each the first that the names in front of it leave. -/
structure AreNames (values names : List String) : Prop where
  length_eq : names.length = values.length
  nodup : names.Nodup
  isConstantName : ∀ name ∈ names, IsConstantName name
  takes : ∀ {i : Nat} {value : String}, values[i]? = some value →
    ∃ name, names[i]? = some name ∧ Takes (names.take i) (Identifier.upperSnakeCase value) name

theorem areNames_names (values : List String) : AreNames values (names values) where
  length_eq := length_namesFrom [] values
  nodup := names_nodup values
  isConstantName := fun _ => isConstantName_of_mem_namesFrom
  takes := takes_of_names

end PklBindings.EnumConstant
