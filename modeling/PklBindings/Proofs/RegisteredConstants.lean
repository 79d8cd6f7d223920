import PklBindings.Proofs.EnumConstants

/-!
# Constants that become members

An `Enum` class of Python makes members of the names in its body, but for three kinds of names:
private ones, which start with two underscores and do not end with two, and the reserved ones
`_name_` and `__name__`. The constants of an enumeration are never reserved. They may be private:
all values without letters and digits have the name `_`, so all but the first of them get that name
with a number, such as `__2`. No other value has a private name
(`EnumConstant.registered_iff_words_apart`).
-/

namespace PklBindings.EnumConstant

open Identifier

/-- Python takes the name for a private one of the class around it. -/
def IsPrivate (name : String) : Prop :=
  ['_', '_'] <+: name.toList ∧ ¬ ['_', '_'] <:+ name.toList

instance (name : String) : Decidable (IsPrivate name) :=
  inferInstanceAs (Decidable (_ ∧ _))

/-- The form `_name_`, which Python reserves in `Enum` classes. -/
def IsSunder (name : String) : Prop :=
  ∃ inner, name.toList = ['_'] ++ inner ++ ['_'] ∧ inner ≠ [] ∧ inner.head? ≠ some '_' ∧
    inner.getLast? ≠ some '_'

/-- The form `__name__`, which Python reserves everywhere. -/
def IsDunder (name : String) : Prop :=
  ∃ inner, name.toList = ['_', '_'] ++ inner ++ ['_', '_'] ∧ inner ≠ []

/-- An `Enum` class makes a member of the name. -/
def IsRegistered (name : String) : Prop :=
  ¬ IsPrivate name ∧ ¬ IsSunder name ∧ ¬ IsDunder name

/-! ## The ends of names -/

/-- A name with an underscore in front has no other one at its end. -/
def EndsOpen (name : String) : Prop :=
  ∀ inner, name.toList ≠ '_' :: inner ++ ['_']

theorem EndsOpen.not_isSunder {name : String} (h : EndsOpen name) : ¬ IsSunder name := by
  rintro ⟨inner, hname, -⟩
  exact h inner hname

theorem EndsOpen.not_isDunder {name : String} (h : EndsOpen name) : ¬ IsDunder name := by
  rintro ⟨inner, hname, -⟩
  apply h ('_' :: inner ++ ['_'])
  rw [hname]
  simp

/-- A name with a number ends with a digit. -/
theorem getLast?_numbered_ne (name : String) (k : Nat) :
    (numbered name k).toList.getLast? ≠ some '_' := by
  intro h
  have hne : Nat.toDigits 10 k ≠ [] := Nat.toDigits_ne_nil
  rw [toList_numbered, List.getLast?_append_of_ne_nil _ (List.cons_ne_nil _ _),
    List.getLast?_cons_of_ne_nil hne] at h
  have hdigit := Nat.isDigit_of_mem_toDigits (by decide) (Nat.le_refl 10) (List.mem_of_getLast? h)
  exact absurd hdigit (by decide)

theorem endsOpen_numbered (name : String) (k : Nat) : EndsOpen (numbered name k) := by
  intro inner h
  apply getLast?_numbered_ne name k
  rw [h, List.getLast?_concat]

theorem endsOpen_upperSnakeCase (value : String) : EndsOpen (upperSnakeCase value) := by
  intro inner h
  cases upperShape value with
  | wordless _ hname =>
      rw [hname] at h
      simp at h
  | letter _ hname hc =>
      rw [hname] at h
      cases h
      exact absurd hc (by decide)
  | digit _ _ _ hlast =>
      apply hlast '_' _ rfl
      rw [h, List.getLast?_concat]

theorem Takes.endsOpen {used : List String} {value name : String}
    (h : Takes used (upperSnakeCase value) name) : EndsOpen name := by
  cases h with
  | free _ => exact endsOpen_upperSnakeCase value
  | withNumber _ _ _ _ _ => exact endsOpen_numbered _ _

/-! ## The starts of names -/

/-- With a letter or a digit in the value there are no two underscores at the start of its name,
whatever follows the name. -/
theorem not_prefix_of_not_isWordless {value : String} (h : ¬ IsWordless value)
    (behind : List Char) : ¬ ['_', '_'] <+: (upperSnakeCase value).toList ++ behind := by
  intro hstart
  cases upperShape value with
  | wordless hwordless _ => exact h hwordless
  | letter _ hname hc =>
      rw [hname, List.cons_append, List.cons_prefix_cons] at hstart
      rw [← hstart.1] at hc
      exact absurd hc (by decide)
  | digit _ hname hc _ =>
      rw [hname, List.cons_append, List.cons_append, List.cons_prefix_cons,
        List.cons_prefix_cons] at hstart
      rw [← hstart.2.1] at hc
      exact absurd hc (by decide)

theorem isPrivate_numbered_underscore (k : Nat) : IsPrivate (numbered "_" k) := by
  constructor
  · rw [toList_numbered]
    exact ⟨_, rfl⟩
  · rintro ⟨front, hfront⟩
    apply getLast?_numbered_ne "_" k
    rw [← hfront, List.getLast?_append_of_ne_nil _ (List.cons_ne_nil _ _)]
    rfl

/-- A name is private when its value has no letters and digits and an earlier value took `_`. -/
theorem Takes.isPrivate_iff {used : List String} {value name : String}
    (h : Takes used (upperSnakeCase value) name) :
    IsPrivate name ↔ IsWordless value ∧ "_" ∈ used := by
  by_cases hwordless : IsWordless value
  · rw [upperSnakeCase_eq_underscore_iff.2 hwordless] at h
    cases h with
    | free hfree => simp [hfree, show ¬ IsPrivate "_" by decide]
    | withNumber htaken _ _ _ _ => simp [hwordless, htaken, isPrivate_numbered_underscore]
  · have hnot : ¬ IsPrivate name := by
      rintro ⟨hstart, -⟩
      cases h with
      | free _ =>
          apply not_prefix_of_not_isWordless hwordless []
          rwa [List.append_nil]
      | withNumber _ _ _ _ _ =>
          rw [toList_numbered] at hstart
          exact not_prefix_of_not_isWordless hwordless _ hstart
    simp [hwordless, hnot]

/-! ## Values without letters and digits -/

theorem Takes.isWordless {used : List String} {value : String}
    (h : Takes used (upperSnakeCase value) "_") : IsWordless value := by
  generalize hname : "_" = name at h
  cases h with
  | free _ => exact upperSnakeCase_eq_underscore_iff.1 hname.symm
  | @withNumber k _ _ _ _ _ =>
      apply absurd _ (getLast?_numbered_ne (upperSnakeCase value) k)
      rw [← hname]
      rfl

theorem mem_take_iff {a : String} {as : List String} {i : Nat} :
    a ∈ as.take i ↔ ∃ j, j < i ∧ as[j]? = some a := by
  simp [List.mem_iff_getElem?, List.getElem?_take]

/-- The name `_` is in use behind the first value without letters and digits. -/
theorem underscore_mem_take_names_iff (values : List String) (i : Nat) :
    "_" ∈ (names values).take i ↔ ∃ value ∈ values.take i, IsWordless value := by
  constructor
  · intro hmem
    obtain ⟨j, hj, hname⟩ := mem_take_iff.1 hmem
    obtain ⟨value, hvalue, htakes⟩ := exists_value_of_names hname
    exact ⟨value, mem_take_iff.2 ⟨j, hj, hvalue⟩, htakes.isWordless⟩
  · rintro ⟨value, hmem, hwordless⟩
    obtain ⟨j, hj, hvalue⟩ := mem_take_iff.1 hmem
    obtain ⟨name, hname, htakes⟩ := takes_of_names hvalue
    rw [upperSnakeCase_eq_underscore_iff.2 hwordless] at htakes
    cases htakes with
    | free _ => exact mem_take_iff.2 ⟨j, hj, hname⟩
    | withNumber htaken _ _ _ _ =>
        obtain ⟨k, hk, hk'⟩ := mem_take_iff.1 htaken
        exact mem_take_iff.2 ⟨k, Nat.lt_trans hk hj, hk'⟩

theorem exists_isPrivate_iff (values : List String) (i : Nat) :
    (∃ name, (names values)[i]? = some name ∧ IsPrivate name) ↔
      (∃ value, values[i]? = some value ∧ IsWordless value) ∧
        ∃ earlier ∈ values.take i, IsWordless earlier := by
  rw [← underscore_mem_take_names_iff]
  cases hvalue : values[i]? with
  | none =>
      have hname : (names values)[i]? = none := by
        rw [List.getElem?_eq_none_iff] at hvalue ⊢
        rwa [names, length_namesFrom]
      simp [hname]
  | some value =>
      obtain ⟨name, hname, htakes⟩ := takes_of_names hvalue
      simp [hname, htakes.isPrivate_iff]

theorem endsOpen_of_mem_names {values : List String} {name : String} (h : name ∈ names values) :
    EndsOpen name := by
  obtain ⟨i, hi⟩ := List.mem_iff_getElem?.1 h
  obtain ⟨value, -, htakes⟩ := exists_value_of_names hi
  exact htakes.endsOpen

/-- No two values are both without letters and digits. -/
def WordsApart (values : List String) : Prop :=
  values.Pairwise fun a b => ¬ (IsWordless a ∧ IsWordless b)

theorem wordsApart_iff {values : List String} :
    WordsApart values ↔ ∀ i, ¬ ((∃ value, values[i]? = some value ∧ IsWordless value) ∧
      ∃ earlier ∈ values.take i, IsWordless earlier) := by
  rw [WordsApart, List.pairwise_iff_getElem]
  constructor
  · rintro hapart i ⟨⟨value, hvalue, hwordless⟩, earlier, hearlier, hwordless'⟩
    obtain ⟨j, hj, hearlier⟩ := mem_take_iff.1 hearlier
    obtain ⟨hi, rfl⟩ := List.getElem?_eq_some_iff.1 hvalue
    obtain ⟨hj', rfl⟩ := List.getElem?_eq_some_iff.1 hearlier
    exact hapart j i hj' hi hj ⟨hwordless', hwordless⟩
  · rintro hnone i j hi hj hlt ⟨hwordless, hwordless'⟩
    apply hnone j
    exact ⟨⟨_, List.getElem?_eq_getElem hj, hwordless'⟩, _,
      mem_take_iff.2 ⟨i, hlt, List.getElem?_eq_getElem hi⟩, hwordless⟩

/-- The constants of an enumeration are never reserved, and private are exactly those of the values
without letters and digits behind the first such value. So all constants become members of the
class unless two values are without letters and digits. -/
theorem registered_iff_words_apart (values : List String) :
    ((∀ name ∈ names values, IsRegistered name) ↔ WordsApart values) ∧
      (∀ name ∈ names values, ¬ IsSunder name ∧ ¬ IsDunder name) ∧
      ∀ i, (∃ name, (names values)[i]? = some name ∧ IsPrivate name) ↔
        (∃ value, values[i]? = some value ∧ IsWordless value) ∧
          ∃ earlier ∈ values.take i, IsWordless earlier := by
  have hreserved : ∀ name ∈ names values, ¬ IsSunder name ∧ ¬ IsDunder name := by
    intro name hname
    have hopen := endsOpen_of_mem_names hname
    exact ⟨hopen.not_isSunder, hopen.not_isDunder⟩
  refine ⟨?_, hreserved, exists_isPrivate_iff values⟩
  simp only [wordsApart_iff, ← exists_isPrivate_iff]
  constructor
  · rintro hregistered i ⟨name, hname, hprivate⟩
    exact (hregistered name (List.mem_of_getElem? hname)).1 hprivate
  · intro hnone name hname
    refine ⟨?_, hreserved name hname⟩
    intro hprivate
    obtain ⟨i, hi⟩ := List.mem_iff_getElem?.1 hname
    exact hnone i ⟨name, hi, hprivate⟩

/-- Values of which one is without letters and digits, two have one name, and one is a keyword. -/
def mixedValues : List String := ["+", "9-a", "9 A", "class"]

theorem registered_iff_words_apart_mixedValues :
    names mixedValues = ["_", "_9_A", "_9_A_2", "CLASS_"] ∧ WordsApart mixedValues ∧
      (∀ name ∈ names mixedValues, IsRegistered name) ∧
      "_9_A_2" ∈ names mixedValues ∧ ¬ IsSunder "_9_A_2" ∧ ¬ IsDunder "_9_A_2" := by
  have hnames : names mixedValues = ["_", "_9_A", "_9_A_2", "CLASS_"] := by decide
  have hapart : WordsApart mixedValues := by simp [WordsApart, mixedValues, IsWordless]
  have hmem : "_9_A_2" ∈ names mixedValues := by
    rw [hnames]
    simp
  obtain ⟨hregistered, hreserved, -⟩ := registered_iff_words_apart mixedValues
  exact ⟨hnames, hapart, hregistered.2 hapart, hmem, hreserved _ hmem⟩

/-- Of the values of one name only the first has a constant that becomes a member. -/
theorem exists_private_constant :
    names ["+", "-"] = ["_", "__2"] ∧ ∃ name ∈ names ["+", "-"], IsPrivate name := by
  have hnames : names ["+", "-"] = ["_", "__2"] := by decide
  refine ⟨hnames, "__2", ?_, by decide⟩
  rw [hnames]
  exact List.mem_cons_of_mem _ (List.mem_singleton_self _)

end PklBindings.EnumConstant
