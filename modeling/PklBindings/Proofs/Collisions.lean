import Mathlib.Data.List.Nodup
import Mathlib.Data.List.Sort
import PklBindings.Collision
import PklBindings.Proofs.FirstOccurrences
import PklBindings.Proofs.Texts

/-!
# Collisions

Bindings are without collisions exactly when no two of them bind one name in one namespace
(`all_eq_nil_iff`). In a namespace without collisions a name therefore belongs to a single
binding (`eq_of_inSpace_eq_nil`).

There is one collision for each name that is bound more than once. The collisions come in the order
of the bytes of namespace and name, each with all bindings of its name as they were given, and those
of a table are those of its namespaces one after another (`all_groups_bindings`).
-/

namespace PklBindings.Collision

/-- The bindings of a name are as many as the name occurs among the bound names. -/
theorem count_boundName (bindings : List Binding) (bound : String × String) :
    (bindings.map Binding.boundName).count bound =
      (bindings.filter (·.boundName = bound)).length := by
  rw [List.count, List.countP_map, List.countP_eq_length_filter]
  congr 1
  exact List.filter_congr fun b _ => by simp [beq_eq_decide]

/-- There is a collision over a name that is bound twice or more, and it shows all its bindings. -/
theorem ofName?_eq (bindings : List Binding) (bound : String × String) :
    ofName? bindings bound =
      if 2 ≤ (bindings.map Binding.boundName).count bound then
        some ⟨bound.1, bound.2, (bindings.filter (·.boundName = bound)).map Binding.toConflict⟩
      else none := by
  rw [count_boundName, ofName?]
  generalize bindings.filter (·.boundName = bound) = found
  rcases found with _ | ⟨first, _ | ⟨second, others⟩⟩
  · rfl
  · rfl
  · rw [if_pos (by simp)]

theorem ofName?_eq_none_iff (bindings : List Binding) (bound : String × String) :
    ofName? bindings bound = none ↔ (bindings.map Binding.boundName).count bound ≤ 1 := by
  rw [ofName?_eq, ite_eq_right_iff]
  simp only [reduceCtorEq, imp_false, not_le, Nat.lt_succ_iff]

theorem ofName?_eq_some_iff {bindings : List Binding} {bound : String × String} {c : Collision} :
    ofName? bindings bound = some c ↔
      2 ≤ (bindings.map Binding.boundName).count bound ∧ (c.space, c.name) = bound ∧
        c.conflicts = (bindings.filter (·.boundName = bound)).map Binding.toConflict := by
  obtain ⟨space, name, conflicts⟩ := c
  obtain ⟨space', name'⟩ := bound
  rw [ofName?_eq]
  split
  · rename_i hcount
    simp [hcount, eq_comm, and_assoc]
  · rename_i hcount
    simp [hcount]

theorem mem_boundNames {bindings : List Binding} {bound : String × String} :
    bound ∈ boundNames bindings ↔ bound ∈ bindings.map Binding.boundName := by
  simp [boundNames]

/-- There is no collision exactly when the bound names are pairwise distinct. -/
theorem all_eq_nil_iff (bindings : List Binding) :
    all bindings = [] ↔ (bindings.map Binding.boundName).Nodup := by
  rw [all, List.filterMap_eq_nil_iff, List.nodup_iff_count_le_one]
  constructor
  · intro h bound
    by_cases hmem : bound ∈ bindings.map Binding.boundName
    · exact (ofName?_eq_none_iff bindings bound).1 (h bound (mem_boundNames.2 hmem))
    · rw [List.count_eq_zero.2 hmem]
      exact Nat.zero_le 1
  · intro h bound _
    exact (ofName?_eq_none_iff bindings bound).2 (h bound)

/-- In a namespace without collisions, a name belongs to one binding. -/
theorem eq_of_inSpace_eq_nil {table : BindingTable} {space : String}
    (h : inSpace table space = []) {b c : Binding} (hb : b ∈ table.entries)
    (hc : c ∈ table.entries) (hbspace : b.space = space) (hcspace : c.space = space)
    (hname : b.name = c.name) : b = c := by
  refine List.inj_on_of_nodup_map ((all_eq_nil_iff _).1 h) ?_ ?_ ?_
  · simp [BindingTable.inSpace, hb, hbspace]
  · simp [BindingTable.inSpace, hc, hcspace]
  · simp [Binding.boundName, hbspace, hcspace, hname]

/-! ## Which collisions there are -/

/-- There is a collision for each name that is bound twice or more. -/
theorem mem_all_iff {bindings : List Binding} {c : Collision} :
    c ∈ all bindings ↔ 2 ≤ (bindings.map Binding.boundName).count (c.space, c.name) ∧
      c.conflicts =
        (bindings.filter (·.boundName = (c.space, c.name))).map Binding.toConflict := by
  rw [all, List.mem_filterMap]
  constructor
  · rintro ⟨bound, -, hof⟩
    obtain ⟨hcount, rfl, hconflicts⟩ := ofName?_eq_some_iff.1 hof
    exact ⟨hcount, hconflicts⟩
  · rintro ⟨hcount, hconflicts⟩
    refine ⟨(c.space, c.name), mem_boundNames.2 (List.count_pos_iff.1 (by omega)), ?_⟩
    exact ofName?_eq_some_iff.2 ⟨hcount, rfl, hconflicts⟩

/-- Collisions within a namespace are those of all bindings that are over a name of it. -/
theorem mem_inSpace_iff {table : BindingTable} {space : String} {c : Collision} :
    c ∈ inSpace table space ↔ c ∈ all table.entries ∧ c.space = space := by
  rw [inSpace, mem_all_iff, mem_all_iff, count_boundName, count_boundName]
  by_cases hspace : c.space = space
  · -- A name of the namespace has all its bindings within it.
    have hfilter : (table.inSpace space).filter (·.boundName = (c.space, c.name)) =
        table.entries.filter (·.boundName = (c.space, c.name)) := by
      rw [BindingTable.inSpace, List.filter_filter]
      refine List.filter_congr fun b _ => ?_
      simp only [Binding.boundName, Prod.mk.injEq, ← hspace, Bool.decide_and,
        Bool.and_eq_left_iff_imp, Bool.and_eq_true, decide_eq_true_eq]
      exact fun h => h.1
    rw [hfilter, and_iff_left hspace]
  · have hnone : (table.inSpace space).filter (·.boundName = (c.space, c.name)) = [] := by
      rw [BindingTable.inSpace, List.filter_filter, List.filter_eq_nil_iff]
      rintro b - hb
      simp only [Binding.boundName, Prod.mk.injEq, Bool.and_eq_true, decide_eq_true_eq] at hb
      exact hspace (hb.1.1.symm.trans hb.2)
    simp [hnone, hspace]

/-! ## Their order -/

/-- The bytes of the namespace decide, and then those of the name. -/
def NameBefore (a b : String × String) : Prop :=
  Text.bytes a.1 < Text.bytes b.1 ∨ a.1 = b.1 ∧ Text.bytes a.2 < Text.bytes b.2

theorem nameBefore_irrefl (a : String × String) : ¬ NameBefore a a := by
  simp [NameBefore, Text.bytes_lt_bytes_iff]

theorem nameBefore_asymm {a b : String × String} (h : NameBefore a b) : ¬ NameBefore b a := by
  simp only [NameBefore, Text.bytes_lt_bytes_iff] at h ⊢
  rintro (hspace' | ⟨heq', hname'⟩)
  · rcases h with hspace | ⟨heq, -⟩
    · exact lt_asymm hspace hspace'
    · exact absurd hspace' (heq ▸ lt_irrefl _)
  · rcases h with hspace | ⟨-, hname⟩
    · exact absurd hspace (heq' ▸ lt_irrefl _)
    · exact lt_asymm hname hname'

/-- The order by which bound names are sorted. -/
theorem nameLE_iff {a b : String × String} : nameLE a b = true ↔ NameBefore a b ∨ a = b := by
  obtain ⟨space, name⟩ := a
  obtain ⟨space', name'⟩ := b
  simp only [nameLE, NameBefore, Text.bytes_lt_bytes_iff, Bool.or_eq_true, Bool.and_eq_true,
    decide_eq_true_eq, Prod.mk.injEq, or_assoc, le_iff_lt_or_eq, and_or_left]

theorem nameLE_total (a b : String × String) : (nameLE a b || nameLE b a) = true := by
  simp only [nameLE, Bool.or_eq_true, Bool.and_eq_true, decide_eq_true_eq]
  rcases lt_trichotomy a.1 b.1 with hlt | heq | hgt
  · exact Or.inl (Or.inl hlt)
  · rcases le_total a.2 b.2 with hle | hge
    · exact Or.inl (Or.inr ⟨heq, hle⟩)
    · exact Or.inr (Or.inr ⟨heq.symm, hge⟩)
  · exact Or.inr (Or.inl hgt)

theorem nameLE_trans (a b c : String × String) (hab : nameLE a b = true)
    (hbc : nameLE b c = true) : nameLE a c = true := by
  simp only [nameLE, Bool.or_eq_true, Bool.and_eq_true, decide_eq_true_eq] at *
  rcases hab with hab | ⟨hab, hab'⟩
  · rcases hbc with hbc | ⟨hbc, -⟩
    · exact Or.inl (hab.trans hbc)
    · exact Or.inl (hbc ▸ hab)
  · rcases hbc with hbc | ⟨hbc, hbc'⟩
    · exact Or.inl (hab ▸ hbc)
    · exact Or.inr ⟨hab.trans hbc, hab'.trans hbc'⟩

theorem boundNames_pairwise (bindings : List Binding) :
    (boundNames bindings).Pairwise NameBefore := by
  have hsorted : (boundNames bindings).Pairwise (nameLE · · = true) :=
    List.pairwise_mergeSort nameLE_trans nameLE_total _
  have hnodup : (boundNames bindings).Nodup :=
    (List.mergeSort_perm _ _).nodup_iff.2 (firstOccurrences_eraseDups _).nodup
  refine (hsorted.and hnodup).imp ?_
  rintro a b ⟨hle, hne⟩
  exact (nameLE_iff.1 hle).resolve_right hne

/-- The name of the first collision comes before that of the second. -/
def Before (c d : Collision) : Prop :=
  NameBefore (c.space, c.name) (d.space, d.name)

instance : Std.Irrefl Before :=
  ⟨fun _ => nameBefore_irrefl _⟩

instance : Std.Antisymm Before :=
  ⟨fun _ _ hcd hdc => absurd hdc (nameBefore_asymm hcd)⟩

/-- Collisions come in the order of their names, so no two are over one name. -/
theorem all_pairwise (bindings : List Binding) : (all bindings).Pairwise Before := by
  refine (boundNames_pairwise bindings).filterMap _ ?_
  intro bound bound' hbefore c hc d hd
  obtain ⟨-, rfl, -⟩ := ofName?_eq_some_iff.1 hc
  obtain ⟨-, rfl, -⟩ := ofName?_eq_some_iff.1 hd
  exact hbefore

/-! ## Namespace by namespace -/

/-- The namespaces of bindings can be put in order. -/
theorem exists_sorted_spaces (bindings : List Binding) :
    ∃ spaces : List String, spaces.Pairwise (fun s t => Text.bytes s < Text.bytes t) ∧
      ∀ space, space ∈ spaces ↔ ∃ b ∈ bindings, b.space = space := by
  let spaces := ((bindings.map (·.space)).eraseDups).mergeSort fun s t => s ≤ t
  have hsorted : spaces.Pairwise (· ≤ ·) := List.pairwise_mergeSort' (· ≤ ·) _
  have hnodup : spaces.Nodup :=
    (List.mergeSort_perm _ _).nodup_iff.2 (firstOccurrences_eraseDups _).nodup
  refine ⟨spaces, (hsorted.and hnodup).imp ?_, fun space => ?_⟩
  · rintro s t ⟨hle, hne⟩
    exact Text.bytes_lt_bytes_iff.2 (lt_of_le_of_ne hle hne)
  · simp [spaces]

/-- Collisions are found namespace by namespace, if the namespaces come in order. -/
theorem all_eq_flatMap_inSpace {table : BindingTable} {spaces : List String}
    (hsorted : spaces.Pairwise fun s t => Text.bytes s < Text.bytes t)
    (hspaces : ∀ space, space ∈ spaces ↔ ∃ b ∈ table.entries, b.space = space) :
    all table.entries = spaces.flatMap (inSpace table) := by
  have hright : (spaces.flatMap (inSpace table)).Pairwise Before := by
    refine List.pairwise_flatMap.2 ⟨fun space _ => all_pairwise _, hsorted.imp ?_⟩
    intro s t hst c hc d hd
    obtain ⟨-, rfl⟩ := mem_inSpace_iff.1 hc
    obtain ⟨-, rfl⟩ := mem_inSpace_iff.1 hd
    exact Or.inl hst
  -- Both lists are in the same strict order, so it is enough that they have the same collisions.
  refine List.Pairwise.eq_of_mem_iff (all_pairwise _) hright fun c => ?_
  simp only [List.mem_flatMap, mem_inSpace_iff, hspaces]
  constructor
  · intro hc
    have hbound : (c.space, c.name) ∈ table.entries.map Binding.boundName :=
      List.count_pos_iff.1 (by have := (mem_all_iff.1 hc).1; omega)
    obtain ⟨b, hb, hname⟩ := List.mem_map.1 hbound
    exact ⟨c.space, ⟨b, hb, (Prod.mk.inj hname).1⟩, hc, rfl⟩
  · rintro ⟨-, -, hc, -⟩
    exact hc

end PklBindings.Collision
