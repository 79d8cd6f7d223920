import Mathlib.Data.List.Sort
import PklBindings.Proofs.Collisions
import PklBindings.Proofs.Generation
import PklBindings.Proofs.MemberOrder

/-!
# What stands before a type alias

The assignment of a type alias is evaluated when the generated module is loaded, so what it refers
to has to stand before it. Aliases come before everything else and in the order of their
declarations, whatever they refer to (`Module.Arranged.exists_aliases_first`). So a declaration that
an alias refers to stands before it exactly when it is an alias that is declared earlier
(`Module.referenced_before_alias_iff`); a class never does
(`Module.exists_referenced_not_before_alias`).
-/

namespace PklBindings

/-- The member of the declaration at index `i` stands before that of the declaration at index
`j`. -/
def Member.StandBefore (members : List Member) (i j : Nat) : Prop :=
  [i, j].Sublist (members.map (·.position))

namespace Module

/-- The declaration at index `i` is a type alias. -/
def IsAliasAt (m : Module) (i : Nat) : Prop :=
  ∃ d, m.declarations[i]? = some d ∧ d.kind = .typeAlias

/-- The declaration at index `i` is a type alias, and its aliased type refers at any depth to the
declaration at index `j`. -/
def AliasRefersTo (m : Module) (i j : Nat) : Prop :=
  ∃ a d, m.declarations[i]? = some a ∧ a.kind = .typeAlias ∧ m.declarations[j]? = some d ∧
    d.qualifiedName ∈ a.aliasedType.references

/-- Every declaration of the module has a member, and there is no other. -/
structure EmitsAll (m : Module) (target : Target) (members : List Member) : Prop where
  perm : (members.map (·.position)).Perm (List.range m.declarations.length)
  stems : ∀ member ∈ members, ∃ d, m.declarations[member.position]? = some d ∧
    Member.Stems d member.position target member

variable {m : Module} {target : Target} {made members : List Member}

/-- The members that are made of the declarations have their indices as positions. -/
theorem map_position_of_members (h : m.members target = .ok made) :
    made.map (·.position) = List.range m.declarations.length := by
  have hpositions : m.declarations.zipIdx.map Prod.snd = made.map (·.position) := by
    rw [← List.forall₂_eq_eq_eq, List.forall₂_map_left_iff, List.forall₂_map_right_iff]
    exact (forall₂_stems_of_members h).imp fun _ _ hstems => hstems.position_eq.symm
  rw [← hpositions, List.zipIdx_map_snd, List.range_eq_range']

/-- Every member is made of the declaration at its position. -/
theorem ofDeclaration_of_mem_members (h : m.members target = .ok made) :
    ∀ member ∈ made, ∃ d, m.declarations[member.position]? = some d ∧
      Member.ofDeclaration d member.position target = .ok member := by
  intro member hmember
  obtain ⟨⟨d, i⟩, hzip, hmade⟩ := exists_mem_zip_of_mem_right (mapM_eq_ok_iff.1 h) hmember
  obtain rfl : member.position = i := (Member.stems_of_ofDeclaration hmade).position_eq
  exact ⟨d, List.mk_mem_zipIdx_iff_getElem?.1 (List.of_mem_zip hzip).1, hmade⟩

theorem stems_of_mem_members (h : m.members target = .ok made) :
    ∀ member ∈ made, ∃ d, m.declarations[member.position]? = some d ∧
      Member.Stems d member.position target member := by
  intro member hmember
  obtain ⟨d, hd, hmade⟩ := ofDeclaration_of_mem_members h member hmember
  exact ⟨d, hd, Member.stems_of_ofDeclaration hmade⟩

theorem Arranged.ofDeclaration_of_mem (h : m.Arranged target members) :
    ∀ member ∈ members, ∃ d, m.declarations[member.position]? = some d ∧
      Member.ofDeclaration d member.position target = .ok member := by
  intro member hmember
  obtain ⟨made, hmade, hordered⟩ := h.exists_made
  exact ofDeclaration_of_mem_members hmade member
    ((Member.perm_of_ordered hordered).1.mem_iff.1 hmember)

/-- The order of members holds each of them once. -/
theorem Arranged.emitsAll (h : m.Arranged target members) : m.EmitsAll target members := by
  obtain ⟨made, hmade, hordered⟩ := h.exists_made
  obtain ⟨hperm, -⟩ := Member.perm_of_ordered hordered
  constructor
  · rw [← map_position_of_members hmade]
    exact hperm.map _
  · intro member hmember
    exact stems_of_mem_members hmade member (hperm.mem_iff.1 hmember)

/-- First come the aliases, in the order of their declarations, and then all else. -/
theorem Arranged.exists_aliases_first (h : m.Arranged target members) :
    ∃ aliases classes, members = aliases ++ classes ∧
      (aliases.map (·.position)).Pairwise (· < ·) ∧
      (∀ a ∈ aliases, a.isTypeAlias = true) ∧ ∀ c ∈ classes, c.isTypeAlias = false := by
  obtain ⟨made, hmade, hordered⟩ := h.exists_made
  have hpositions : (made.map (·.position)).Pairwise (· < ·) := by
    rw [map_position_of_members hmade]
    exact List.pairwise_lt_range
  have hsorted : made.Pairwise fun a b => a.position ≤ b.position :=
    (List.pairwise_map.1 hpositions).imp Nat.le_of_lt
  -- The members are made in the order of their positions, so nothing is left to sort.
  rw [Member.ordered_of_sorted hsorted, Member.orderedFrom_eq_ok_iff] at hordered
  obtain ⟨-, -, rfl⟩ := hordered
  refine ⟨_, _, rfl, hpositions.sublist (List.filter_sublist.map _), ?_, ?_⟩
  · intro a ha
    exact (List.mem_filter.1 ha).2
  · intro c hc
    have hmem := Member.mem_of_mem_sortClasses c hc
    simpa using (List.mem_filter.1 hmem).2

/-- Among members with the aliases first, the positions of the aliases are the indices of type
aliases. -/
theorem EmitsAll.mem_map_position_iff {aliases classes : List Member}
    (h : m.EmitsAll target (aliases ++ classes)) (haliases : ∀ a ∈ aliases, a.isTypeAlias = true)
    (hclasses : ∀ c ∈ classes, c.isTypeAlias = false) {i : Nat} :
    i ∈ aliases.map (·.position) ↔ m.IsAliasAt i := by
  -- A member is an alias if its declaration is one.
  have hkind : ∀ member ∈ aliases ++ classes, ∀ d, m.declarations[member.position]? = some d →
      (member.isTypeAlias = true ↔ d.kind = .typeAlias) := by
    intro member hmember d hd
    obtain ⟨d', hd', hstems⟩ := h.stems member hmember
    obtain rfl : d = d' := by simpa [hd] using hd'
    simp [Member.isTypeAlias, hstems.kind_eq]
  constructor
  · intro hi
    obtain ⟨a, ha, rfl⟩ := List.mem_map.1 hi
    have hmem := List.mem_append_left classes ha
    obtain ⟨d, hd, -⟩ := h.stems a hmem
    exact ⟨d, hd, (hkind a hmem d hd).1 (haliases a ha)⟩
  · rintro ⟨d, hd, halias⟩
    have hi : i ∈ List.range m.declarations.length := by
      obtain ⟨hlength, -⟩ := List.getElem?_eq_some_iff.1 hd
      exact List.mem_range.2 hlength
    obtain ⟨member, hmember, rfl⟩ := List.mem_map.1 (h.perm.mem_iff.2 hi)
    have hmemberAlias := (hkind member hmember d hd).2 halias
    rcases List.mem_append.1 hmember with ha | hc
    · exact List.mem_map_of_mem ha
    · rw [hclasses member hc] at hmemberAlias
      cases hmemberAlias

/-- Only the aliases that are declared before an alias stand before it. -/
theorem Arranged.standBefore_iff (h : m.Arranged target members) {i j : Nat}
    (hi : m.IsAliasAt i) : Member.StandBefore members j i ↔ m.IsAliasAt j ∧ j < i := by
  obtain ⟨aliases, classes, rfl, hsorted, haliases, hclasses⟩ := h.exists_aliases_first
  have hemits := h.emitsAll
  have hpositions := fun {k} => hemits.mem_map_position_iff haliases hclasses (i := k)
  have hnodup : ((aliases ++ classes).map (·.position)).Nodup :=
    hemits.perm.nodup_iff.2 List.nodup_range
  rw [List.map_append] at hnodup
  rw [Member.StandBefore, List.map_append]
  constructor
  · intro hbefore
    -- The alias itself stands among the aliases, and so does all that stands before it.
    have hpair : [j, i].Sublist (aliases.map (·.position)) := by
      obtain ⟨front, back, hsplit, hfront, hback⟩ := List.sublist_append_iff.1 hbefore
      have hnot : i ∉ back := by
        intro hmem
        exact (List.nodup_append.1 hnodup).2.2 i (hpositions.2 hi) i (hback.subset hmem) rfl
      have hnil : back = [] := by
        by_contra hne
        have hlast : back.getLast? = some i := by
          rw [← List.getLast?_append_of_ne_nil front hne, ← hsplit]
          rfl
        exact hnot (List.mem_of_getLast? hlast)
      rwa [hsplit, hnil, List.append_nil]
    exact ⟨hpositions.1 (hpair.subset (by simp)), List.pairwise_iff_forall_sublist.1 hsorted hpair⟩
  · rintro ⟨hj, hlt⟩
    have hsubset : [j, i] ⊆ aliases.map (·.position) := by
      simp [hpositions.2 hi, hpositions.2 hj]
    have hpair : [j, i].Pairwise (· ≤ ·) := by simpa using Nat.le_of_lt hlt
    have hsub := List.sublist_of_subperm_of_pairwise
      (List.subperm_of_subset (by simpa using Nat.ne_of_lt hlt) hsubset) hpair
      (hsorted.imp Nat.le_of_lt)
    exact hsub.trans (List.sublist_append_left _ _)

/-- In the document of a module the members stand in an order in which a declaration that a type
alias refers to comes before the alias exactly when it is an alias that is declared earlier. -/
theorem referenced_before_alias_iff {header : List String} {document : Document}
    (h : m.document target header = .ok document) :
    ∃ members, m.orderedMembers target = .ok members ∧
      Document.ofMembers target header m.name ((m.moduleClass?.map (·.name)).getD "") members =
        .ok document ∧
      m.EmitsAll target members ∧
      ∀ i j, m.AliasRefersTo i j →
        (Member.StandBefore members j i ↔ m.IsAliasAt j ∧ j < i) := by
  obtain ⟨members, hordered, hof⟩ := document_eq_ok_iff.1 h
  have harranged := orderedMembers_eq_ok_iff.1 hordered
  refine ⟨members, hordered, hof, harranged.emitsAll, ?_⟩
  rintro i j ⟨a, d, ha, halias, -, -⟩
  exact harranged.standBefore_iff ⟨a, ha, halias⟩

/-! ## An alias of a class -/

/-- A module with a type alias of a class, and with another one of that alias. -/
def petModule : Module where
  name := "zoo"
  declarations := [
    { kind := .typeAlias, name := "Pets", moduleName := "zoo"
      aliasedType := .generic {} (.primitive {} .list) [.declared {} "zoo#Pet"] },
    { kind := .ordinaryClass, name := "Pet", moduleName := "zoo" },
    { kind := .typeAlias, name := "Herd", moduleName := "zoo"
      aliasedType := .nullable {} (.declared {} "zoo#Pets") },
    { kind := .moduleClass, name := "Zoo", moduleName := "zoo" }]

/-- The namespace of the module. -/
def petTarget : Target where
  space := "zoo"
  bindings := ⟨[
    { kind := .typeAlias, source := "zoo#Pets", space := "zoo", name := "Pets" },
    { kind := .ordinaryClass, source := "zoo#Pet", space := "zoo", name := "Pet" },
    { kind := .typeAlias, source := "zoo#Herd", space := "zoo", name := "Herd" },
    { kind := .moduleClass, source := "zoo", space := "zoo", name := "ModuleClass" }]⟩

theorem document_petModule : ∃ document members,
    petModule.document petTarget [] = .ok document ∧
      petModule.orderedMembers petTarget = .ok members ∧
      members.map (·.position) = [0, 2, 1, 3] := by
  obtain ⟨members, harranged, hends, hpositions⟩ : ∃ members,
      petModule.Arranged petTarget members ∧ Document.endsWithModuleClass members = true ∧
        members.map (·.position) = [0, 2, 1, 3] := by
    refine ⟨_, ⟨?_, rfl, (Collision.all_eq_nil_iff _).2 (by decide), _, rfl,
      (Member.ordered_of_sorted (by decide)).trans rfl⟩, rfl, rfl⟩
    simp only [petModule, List.forall_mem_cons]
    exact ⟨⟨_, rfl, rfl⟩, ⟨_, rfl, rfl⟩, ⟨_, rfl, rfl⟩, ⟨_, rfl, rfl⟩, by simp⟩
  have hordered := orderedMembers_eq_ok_iff.2 harranged
  exact ⟨_, members, document_eq_ok_iff.2 ⟨members, hordered,
    Document.ofMembers_eq_ok_iff.2 ⟨hends, rfl⟩⟩, hordered, hpositions⟩

theorem aliasRefersTo_petModule : petModule.AliasRefersTo 0 1 ∧ petModule.AliasRefersTo 2 0 := by
  constructor
  · exact ⟨_, _, rfl, rfl, rfl, by decide⟩
  · exact ⟨_, _, rfl, rfl, rfl, by decide⟩

/-- Of the two aliases, one stands before what it refers to, and the other one behind. -/
theorem referenced_before_alias_iff_petModule : ∃ document,
    petModule.document petTarget [] = .ok document ∧
      (∃ members, petModule.orderedMembers petTarget = .ok members ∧
        Document.ofMembers petTarget [] "zoo" "Zoo" members = .ok document ∧
        petModule.EmitsAll petTarget members ∧
        ∀ i j, petModule.AliasRefersTo i j →
          (Member.StandBefore members j i ↔ petModule.IsAliasAt j ∧ j < i)) ∧
      petModule.AliasRefersTo 0 1 ∧ petModule.AliasRefersTo 2 0 := by
  obtain ⟨document, members, hdocument, -, -⟩ := document_petModule
  exact ⟨document, hdocument, referenced_before_alias_iff hdocument, aliasRefersTo_petModule⟩

/-- A class that an alias refers to can stand behind the alias. -/
theorem exists_referenced_not_before_alias : ∃ document members,
    petModule.document petTarget [] = .ok document ∧
      petModule.orderedMembers petTarget = .ok members ∧
      petModule.AliasRefersTo 0 1 ∧ ¬ Member.StandBefore members 1 0 := by
  obtain ⟨document, members, hdocument, hordered, hpositions⟩ := document_petModule
  refine ⟨document, members, hdocument, hordered, aliasRefersTo_petModule.1, ?_⟩
  rw [Member.StandBefore, hpositions]
  decide

end Module

end PklBindings
