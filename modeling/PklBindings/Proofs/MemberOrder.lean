import PklBindings.Member.Order
import PklBindings.Proofs.GraphSorting

/-!
# The order of members

The members of a module have an order exactly when no two classes have one key and no class
waits for itself, be it through others (`ordered_greedy_topological`). The order then is as
`IsEmissionOrder` says: it holds every given member once, first the aliases as they were declared
and then the classes, each time the one declared first of those whose predecessors all stand
before (`isEmissionOrder_of_selection`).

The classes are sorted as the nodes of a graph, by counting edges. That makes a selection of nodes
(`Graph.selection_sort`), and so one of classes (`exists_selection_sortClasses`).

Two given members may be equal in everything, so a member is told apart by its place in the given
list: an `Entry` is a member with that place.
-/

namespace PklBindings.Member

open Relation

/-- A member and its place in the list that it comes from. -/
abbrev Entry := Member × Nat

namespace Entry

/-- The declaration of `a` comes before that of `b`; of equal positions, `a` was given first. -/
def DeclaredBefore (a b : Entry) : Prop :=
  a.1.position < b.1.position ∨ (a.1.position = b.1.position ∧ a.2 < b.2)

/-- `a` is the superclass of `b`, or `b` is a module class and `a` is not. -/
def Precedes (a b : Entry) : Prop :=
  b.1.superclass = some a.1.key ∨ (b.1.isModuleClass = true ∧ a.1.isModuleClass = false)

end Entry

/-- The classes and enumerations among members, with their places. -/
def classEntries (members : List Member) : List Entry :=
  members.zipIdx.filter (!·.1.isTypeAlias)

/-- The type aliases among members, with their places. -/
def aliasEntries (members : List Member) : List Entry :=
  members.zipIdx.filter (·.1.isTypeAlias)

/-- An edge of the dependency graph, which has the classes and enumerations as its nodes. -/
def Edge (members : List Member) : Entry → Entry → Prop :=
  Within Entry.Precedes (classEntries members)

/-- No two classes or enumerations have one key. -/
def DistinctKeys (members : List Member) : Prop :=
  ((members.filter (!·.isTypeAlias)).map (·.key)).Nodup

/-- What the order of members has to satisfy. `[a, b].Sublist l` says that `a` stands before `b`
in `l`. -/
structure IsEmissionOrder (members : List Member) (aliases classes : List Entry) : Prop where
  /-- Every place of the given list occurs once. -/
  perm : (aliases ++ classes).Perm members.zipIdx
  isTypeAlias_of_mem_aliases : ∀ a ∈ aliases, a.1.isTypeAlias = true
  not_isTypeAlias_of_mem_classes : ∀ c ∈ classes, c.1.isTypeAlias = false
  /-- The aliases stand as they were declared. -/
  aliases_sorted : aliases.Pairwise Entry.DeclaredBefore
  /-- A class stands after its superclass. -/
  superclass_before : ∀ a ∈ members.zipIdx, ∀ b ∈ members.zipIdx, b.1.isTypeAlias = false →
    b.1.superclass = some a.1.key → [a, b].Sublist (aliases ++ classes)
  /-- A module class stands after all that are none. -/
  moduleClass_after : ∀ a ∈ members.zipIdx, ∀ b ∈ members.zipIdx, a.1.isModuleClass = false →
    b.1.isModuleClass = true → [a, b].Sublist (aliases ++ classes)
  /-- Next comes the class declared first among those whose predecessors all stand before. -/
  greedy : ∀ done c rest, classes = done ++ c :: rest →
    (∀ p, Edge members p c → p ∈ done) ∧
      ∀ d ∈ rest, (∀ p, Edge members p d → p ∈ done) → c.DeclaredBefore d

/-! ## Sorting by position -/

/-- Entries by the position of their declarations; of equal positions, in the given order. -/
def entriesByPosition (entries : List Entry) : List Entry :=
  entries.mergeSort fun a b => a.1.position ≤ b.1.position

theorem entriesByPosition_perm (entries : List Entry) :
    (entriesByPosition entries).Perm entries :=
  List.mergeSort_perm entries _

theorem map_fst_entriesByPosition (entries : List Entry) :
    (entriesByPosition entries).map Prod.fst = byPosition (entries.map Prod.fst) :=
  List.map_mergeSort fun _ _ _ _ => rfl

theorem byPosition_of_sorted {members : List Member}
    (h : members.Pairwise fun a b => a.position ≤ b.position) : byPosition members = members :=
  List.mergeSort_of_pairwise (h.imp fun hab => by simpa using hab)

/-- The order of members when aliases and classes come by position. -/
def orderedFrom (aliases classes : List Member) : Except OrderError (List Member) :=
  match firstRepeated [] (classes.map (·.key)) with
  | some key => .error (.duplicate key)
  | none =>
    let sorted := sortClasses classes
    let out := aliases ++ sorted.placed.map classes.get
    if out.length = aliases.length + classes.length then .ok out
    else .error (.cycle (sorted.blocked.map fun i => (classes.get i).key))

theorem length_byPosition (members : List Member) :
    (byPosition (members.filter (·.isTypeAlias))).length +
      (byPosition (members.filter (!·.isTypeAlias))).length = members.length := by
  rw [byPosition, byPosition, List.length_mergeSort, List.length_mergeSort, ← List.length_append]
  exact (List.filter_append_perm _ members).length_eq

theorem ordered_eq_orderedFrom (members : List Member) :
    ordered members = orderedFrom (byPosition (members.filter (·.isTypeAlias)))
      (byPosition (members.filter (!·.isTypeAlias))) := by
  rw [orderedFrom, length_byPosition]
  rfl

/-- Members that come by position need no sorting. -/
theorem ordered_of_sorted {members : List Member}
    (h : members.Pairwise fun a b => a.position ≤ b.position) :
    ordered members =
      orderedFrom (members.filter (·.isTypeAlias)) (members.filter (!·.isTypeAlias)) := by
  rw [ordered_eq_orderedFrom, byPosition_of_sorted (h.sublist List.filter_sublist),
    byPosition_of_sorted (h.sublist List.filter_sublist)]

theorem position_le_entriesByPosition (entries : List Entry) :
    (entriesByPosition entries).Pairwise fun a b => a.1.position ≤ b.1.position := by
  -- Merging asks for a transitive and total order, and that of positions is one.
  have hsorted : (entriesByPosition entries).Pairwise
      fun a b => decide (a.1.position ≤ b.1.position) = true := List.pairwise_mergeSort
    (fun a b c hab hbc => by simp only [decide_eq_true_eq] at *; omega)
    (fun a b => by simp only [Bool.or_eq_true, decide_eq_true_eq]; omega) entries
  exact hsorted.imp fun h => by simpa using h

/-- Entries of one position keep their order. -/
theorem filter_entriesByPosition (entries : List Entry) (k : Nat) :
    (entriesByPosition entries).filter (·.1.position = k) =
      entries.filter (·.1.position = k) := by
  -- Tied entries are sorted already, so a stable sort keeps them in one piece and in order.
  have hties : (entries.filter (·.1.position = k)).Pairwise
      fun a b => decide (a.1.position ≤ b.1.position) = true := by
    refine List.pairwise_of_forall_mem_list fun a ha b hb => ?_
    simp only [List.mem_filter, decide_eq_true_eq] at ha hb
    simp [ha.2, hb.2]
  have hsub : (entries.filter (·.1.position = k)).Sublist (entriesByPosition entries) :=
    List.sublist_mergeSort
      (fun a b c hab hbc => by simp only [decide_eq_true_eq] at *; omega)
      (fun a b => by simp only [Bool.or_eq_true, decide_eq_true_eq]; omega)
      hties List.filter_sublist
  have hsub' := hsub.filter (·.1.position = k)
  rw [List.filter_filter] at hsub'
  simp only [Bool.and_self] at hsub'
  exact (hsub'.eq_of_length
    ((entriesByPosition_perm entries).filter _).length_eq.symm).symm

theorem pairwise_entriesByPosition {entries : List Entry}
    (h : entries.Pairwise fun a b => a.2 < b.2) :
    (entriesByPosition entries).Pairwise Entry.DeclaredBefore := by
  rw [List.pairwise_iff_forall_sublist]
  intro a b hab
  have hle : a.1.position ≤ b.1.position :=
    List.pairwise_iff_forall_sublist.1 (position_le_entriesByPosition entries) hab
  rcases Nat.lt_or_eq_of_le hle with hlt | heq
  · exact Or.inl hlt
  · -- A tie is decided by the places, which grow along the given list.
    refine Or.inr ⟨heq, ?_⟩
    have htied := hab.filter (·.1.position = b.1.position)
    rw [filter_entriesByPosition] at htied
    simp only [heq, List.filter_cons, decide_true, if_true, List.filter_nil] at htied
    exact List.pairwise_iff_forall_sublist.1 h (htied.trans List.filter_sublist)

/-! ## Sorting classes -/

theorem mem_superclassEdges {classes : List Member} (hkeys : (classes.map (·.key)).Nodup)
    {a b : Fin classes.length} :
    (a, b) ∈ superclassEdges classes ↔ (classes.get b).superclass = some (classes.get a).key := by
  -- A class is found by its key, since no other class has it.
  have hfind : ∀ key, classes.findFinIdx? (·.key = key) = some a ↔ (classes.get a).key = key := by
    intro key
    rw [List.findFinIdx?_eq_some_iff, decide_eq_true_eq]
    refine and_iff_left_of_imp fun ha j hj hjkey => ?_
    rw [decide_eq_true_eq] at hjkey
    have hne := List.pairwise_iff_getElem.1 hkeys j a (by simp) (by simp) hj
    rw [List.getElem_map, List.getElem_map] at hne
    exact hne (hjkey.trans ha.symm)
  rw [superclassEdges, List.mem_filterMap]
  constructor
  · rintro ⟨i, -, hedge⟩
    obtain ⟨superclass, hsuperclass, hfound⟩ := Option.bind_eq_some_iff.1 hedge
    obtain ⟨above, habove, heq⟩ := Option.bind_eq_some_iff.1 hfound
    cases heq
    rw [hsuperclass, (hfind superclass).1 habove]
  · intro hsuperclass
    refine ⟨b, List.mem_finRange b, ?_⟩
    rw [hsuperclass, Option.bind_eq_bind, Option.bind_some, (hfind _).2 rfl]
    rfl

theorem mem_moduleEdges {classes : List Member} {a b : Fin classes.length} :
    (a, b) ∈ moduleEdges classes ↔
      (classes.get b).isModuleClass = true ∧ (classes.get a).isModuleClass = false := by
  rw [moduleEdges, List.mem_flatMap]
  constructor
  · rintro ⟨root, hroot, hmem⟩
    obtain ⟨i, hi, heq⟩ := List.mem_map.1 hmem
    cases heq
    exact ⟨(List.mem_filter.1 hroot).2, by simpa using (List.mem_filter.1 hi).2⟩
  · rintro ⟨hroot, hi⟩
    refine ⟨b, List.mem_filter.2 ⟨List.mem_finRange b, hroot⟩, List.mem_map.2 ⟨a, ?_, rfl⟩⟩
    exact List.mem_filter.2 ⟨List.mem_finRange a, by simpa using hi⟩

/-- Every class is placed or blocked. -/
theorem perm_sortClasses (classes : List Member) :
    ((sortClasses classes).placed ++ (sortClasses classes).blocked).Perm
      (List.finRange classes.length) :=
  (Graph.selection_sort _).perm

theorem mem_of_mem_sortClasses {classes : List Member} :
    ∀ c ∈ (sortClasses classes).placed.map classes.get, c ∈ classes := by
  intro c hc
  obtain ⟨i, -, rfl⟩ := List.mem_map.1 hc
  exact List.getElem_mem _

/-- Classes with distinct keys are sorted by selecting entries, which tell equal members apart. -/
theorem exists_selection_sortClasses {entries : List Entry}
    (hkeys : ((entries.map Prod.fst).map (·.key)).Nodup) :
    ∃ placed stuck : List Entry, Selection Entry.Precedes entries placed stuck ∧
      (sortClasses (entries.map Prod.fst)).placed.map (entries.map Prod.fst).get =
        placed.map Prod.fst ∧
      (sortClasses (entries.map Prod.fst)).blocked.map (entries.map Prod.fst).get =
        stuck.map Prod.fst := by
  let entry : Fin (entries.map Prod.fst).length → Entry :=
    fun i => entries.get (i.cast (List.length_map Prod.fst))
  have hentry : ∀ i : Fin (entries.map Prod.fst).length,
      (entries.map Prod.fst).get i = (entry i).1 :=
    fun i => List.getElem_map _
  have hentries : (List.finRange (entries.map Prod.fst).length).map entry = entries := by
    apply List.ext_getElem
    · simp
    · intro i hi hi'
      simp [entry]
  have hprecedes : ∀ a b, Graph.Leads
      (superclassEdges (entries.map Prod.fst) ++ moduleEdges (entries.map Prod.fst)) a b ↔
        Entry.Precedes (entry a) (entry b) := by
    intro a b
    rw [Graph.Leads, List.mem_append, mem_superclassEdges hkeys, mem_moduleEdges, hentry, hentry,
      Entry.Precedes]
  have hselection := (Graph.selection_sort _).map hprecedes
  rw [hentries] at hselection
  refine ⟨_, _, hselection, ?_, ?_⟩
  all_goals
    rw [List.map_map]
    exact List.map_congr_left fun i _ => hentry i

theorem firstRepeated_eq_none_iff (seen keys : List String) :
    firstRepeated seen keys = none ↔ keys.Nodup ∧ ∀ k ∈ keys, k ∉ seen := by
  induction keys generalizing seen with
  | nil => simp [firstRepeated]
  | cons k rest ih =>
      rw [firstRepeated]
      split
      · rename_i hk
        simp only [List.contains_eq_mem, decide_eq_true_eq] at hk
        simp [hk]
      · rename_i hk
        simp only [List.contains_eq_mem, decide_eq_true_eq] at hk
        rw [ih]
        simp only [List.nodup_cons, List.mem_cons, not_or, forall_eq_or_imp]
        constructor
        · rintro ⟨hnodup, hrest⟩
          exact ⟨⟨fun hmem => (hrest k hmem).1 rfl, hnodup⟩, hk, fun j hj => (hrest j hj).2⟩
        · rintro ⟨⟨hnot, hnodup⟩, -, hrest⟩
          refine ⟨hnodup, fun j hj => ⟨?_, hrest j hj⟩⟩
          rintro rfl
          exact hnot hj

/-! ## The order -/

theorem map_fst_filter_zipIdx (members : List Member) (p : Member → Bool) :
    (members.zipIdx.filter fun e => p e.1).map Prod.fst = members.filter p := by
  have h := List.filter_map (p := p) (f := Prod.fst) (l := members.zipIdx)
  rw [List.zipIdx_map_fst] at h
  exact h.symm

theorem zipIdx_pairwise_lt (members : List Member) :
    members.zipIdx.Pairwise fun a b => a.2 < b.2 := by
  rw [← List.pairwise_map (f := Prod.snd) (R := (· < ·)), List.zipIdx_map_snd]
  exact List.pairwise_lt_range'

theorem classEntries_pairwise_lt (members : List Member) :
    (classEntries members).Pairwise fun a b => a.2 < b.2 :=
  (zipIdx_pairwise_lt members).sublist List.filter_sublist

theorem classEntries_nodup (members : List Member) : (classEntries members).Nodup :=
  (classEntries_pairwise_lt members).imp fun h heq => by simp [heq] at h

theorem mem_classEntries {members : List Member} {e : Entry} :
    e ∈ classEntries members ↔ e ∈ members.zipIdx ∧ e.1.isTypeAlias = false := by
  simp [classEntries]

theorem mem_aliasEntries {members : List Member} {e : Entry} :
    e ∈ aliasEntries members ↔ e ∈ members.zipIdx ∧ e.1.isTypeAlias = true := by
  simp [aliasEntries]

theorem firstRepeated_nil_eq_none_iff {keys : List String} :
    firstRepeated [] keys = none ↔ keys.Nodup := by
  rw [firstRepeated_eq_none_iff]
  simp

/-- Members that come by position have an order exactly when the keys of the classes are distinct
and no class is blocked. -/
theorem orderedFrom_eq_ok_iff {aliases classes out : List Member} :
    orderedFrom aliases classes = .ok out ↔ (classes.map (·.key)).Nodup ∧
      (sortClasses classes).blocked = [] ∧
        out = aliases ++ (sortClasses classes).placed.map classes.get := by
  rw [orderedFrom, ← firstRepeated_nil_eq_none_iff]
  cases firstRepeated [] (classes.map (·.key)) with
  | some key => simp
  | none =>
      have hlength := (perm_sortClasses classes).length_eq
      rw [List.length_append, List.length_finRange] at hlength
      have hcount : (aliases ++ (sortClasses classes).placed.map classes.get).length =
          aliases.length + classes.length ↔ (sortClasses classes).blocked = [] := by
        rw [List.length_append, List.length_map, ← List.length_eq_zero_iff]
        omega
      dsimp only
      split
      · rename_i hall
        simp [hcount.1 hall, eq_comm]
      · rename_i hsome
        simp [mt hcount.2 hsome]

/-- With distinct keys, the error shows the classes that are blocked. -/
theorem orderedFrom_eq_cycle {aliases classes : List Member}
    (hkeys : (classes.map (·.key)).Nodup) (hblocked : (sortClasses classes).blocked ≠ []) :
    orderedFrom aliases classes =
      .error (.cycle ((sortClasses classes).blocked.map fun i => (classes.get i).key)) := by
  cases h : orderedFrom aliases classes with
  | ok out => exact absurd (orderedFrom_eq_ok_iff.1 h).2.1 hblocked
  | error e =>
      rw [orderedFrom, firstRepeated_nil_eq_none_iff.2 hkeys] at h
      dsimp only at h
      split at h
      · cases h
      · exact h.symm

theorem map_fst_classEntries (members : List Member) :
    (entriesByPosition (classEntries members)).map Prod.fst =
      byPosition (members.filter (!·.isTypeAlias)) := by
  rw [map_fst_entriesByPosition, classEntries, map_fst_filter_zipIdx members (!·.isTypeAlias)]

theorem map_fst_aliasEntries (members : List Member) :
    (entriesByPosition (aliasEntries members)).map Prod.fst =
      byPosition (members.filter (·.isTypeAlias)) := by
  rw [map_fst_entriesByPosition, aliasEntries, map_fst_filter_zipIdx members (·.isTypeAlias)]

theorem nodup_byPosition_iff {members : List Member} :
    ((byPosition (members.filter (!·.isTypeAlias))).map (·.key)).Nodup ↔ DistinctKeys members :=
  ((List.mergeSort_perm _ _).map _).nodup_iff

/-- With distinct keys, the classes go through a selection. Members have an order when it leaves
nothing, and otherwise the error shows what it leaves. -/
theorem exists_selection_ordered {members : List Member} (hkeys : DistinctKeys members) :
    ∃ classes stuck : List Entry,
      Selection Entry.Precedes (entriesByPosition (classEntries members)) classes stuck ∧
      (stuck = [] → ordered members =
        .ok ((entriesByPosition (aliasEntries members) ++ classes).map Prod.fst)) ∧
      (stuck ≠ [] → ordered members = .error (.cycle (stuck.map (·.1.key)))) := by
  rw [← nodup_byPosition_iff, ← map_fst_classEntries] at hkeys
  obtain ⟨classes, stuck, hsel, hplaced, hblocked⟩ := exists_selection_sortClasses hkeys
  rw [ordered_eq_orderedFrom, ← map_fst_classEntries, ← map_fst_aliasEntries]
  refine ⟨classes, stuck, hsel, ?_, ?_⟩
  · rintro rfl
    rw [orderedFrom_eq_ok_iff, hplaced, List.map_append]
    exact ⟨hkeys, List.map_eq_nil_iff.1 hblocked, rfl⟩
  · intro hne
    have hkeysOf := congrArg (List.map (·.key)) hblocked
    rw [List.map_map, List.map_map] at hkeysOf
    rw [orderedFrom_eq_cycle hkeys]
    · exact congrArg (fun keys => Except.error (OrderError.cycle keys)) hkeysOf
    · intro hnil
      rw [hnil] at hblocked
      exact hne (List.map_eq_nil_iff.1 hblocked.symm)

theorem exists_selection_of_ordered {members out : List Member} (h : ordered members = .ok out) :
    DistinctKeys members ∧ ∃ classes : List Entry,
      Selection Entry.Precedes (entriesByPosition (classEntries members)) classes [] ∧
        out = (entriesByPosition (aliasEntries members) ++ classes).map Prod.fst := by
  have hkeys : DistinctKeys members := by
    rw [ordered_eq_orderedFrom, orderedFrom_eq_ok_iff, nodup_byPosition_iff] at h
    exact h.1
  obtain ⟨classes, stuck, hsel, hok, herror⟩ := exists_selection_ordered hkeys
  refine ⟨hkeys, ?_⟩
  by_cases hstuck : stuck = []
  · subst hstuck
    exact ⟨classes, hsel, Except.ok.inj (h.symm.trans (hok rfl))⟩
  · cases h.symm.trans (herror hstuck)

theorem edge_iff_within_entriesByPosition {members : List Member} {a b : Entry} :
    Edge members a b ↔
      Within Entry.Precedes (entriesByPosition (classEntries members)) a b := by
  simp only [Edge, Within, (entriesByPosition_perm (classEntries members)).mem_iff]

/-- A selection that leaves nothing gives an emission order. -/
theorem isEmissionOrder_of_selection {members : List Member} {classes : List Entry}
    (h : Selection Entry.Precedes (entriesByPosition (classEntries members)) classes []) :
    IsEmissionOrder members (entriesByPosition (aliasEntries members)) classes := by
  have hclasses : classes.Perm (classEntries members) :=
    (List.append_nil classes ▸ h.perm).trans (entriesByPosition_perm _)
  have haliases := entriesByPosition_perm (aliasEntries members)
  have hsorted := pairwise_entriesByPosition (classEntries_pairwise_lt members)
  have hnodup : (entriesByPosition (classEntries members)).Nodup :=
    (entriesByPosition_perm _).nodup_iff.2 (classEntries_nodup members)
  -- What precedes a class and is no class itself is an alias, and these come first.
  have hbefore : ∀ a ∈ members.zipIdx, ∀ b ∈ members.zipIdx, b.1.isTypeAlias = false →
      Entry.Precedes a b →
      [a, b].Sublist (entriesByPosition (aliasEntries members) ++ classes) := by
    intro a ha b hb hbclass hprec
    have hbmem : b ∈ classEntries members := mem_classEntries.2 ⟨hb, hbclass⟩
    cases haclass : a.1.isTypeAlias with
    | true =>
        have hamem := haliases.mem_iff.2 (mem_aliasEntries.2 ⟨ha, haclass⟩)
        exact (List.singleton_sublist.2 hamem).append
          (List.singleton_sublist.2 (hclasses.mem_iff.2 hbmem))
    | false =>
        have hedge : Edge members a b := ⟨mem_classEntries.2 ⟨ha, haclass⟩, hbmem, hprec⟩
        exact (h.sublist_of_within (edge_iff_within_entriesByPosition.1 hedge)).trans
          (List.sublist_append_right _ _)
  constructor
  · refine (haliases.append hclasses).trans ?_
    exact List.filter_append_perm _ members.zipIdx
  · intro a ha
    exact (mem_aliasEntries.1 (haliases.mem_iff.1 ha)).2
  · intro c hc
    exact (mem_classEntries.1 (hclasses.mem_iff.1 hc)).2
  · exact pairwise_entriesByPosition ((zipIdx_pairwise_lt members).sublist List.filter_sublist)
  · intro a ha b hb hbclass hsuper
    exact hbefore a ha b hb hbclass (Or.inl hsuper)
  · intro a ha b hb hanot hbmodule
    refine hbefore a ha b hb ?_ (Or.inr ⟨hbmodule, hanot⟩)
    simp only [isModuleClass, decide_eq_true_eq] at hbmodule
    simp [isTypeAlias, hbmodule]
  · intro done c rest hsplit
    simp only [edge_iff_within_entriesByPosition]
    exact h.least_of_split hsorted hnodup hsplit

/-- An order holds the given members, and their keys are distinct. -/
theorem perm_of_ordered {members out : List Member} (h : ordered members = .ok out) :
    out.Perm members ∧ DistinctKeys members := by
  obtain ⟨hkeys, classes, hsel, rfl⟩ := exists_selection_of_ordered h
  have hperm := (isEmissionOrder_of_selection hsel).perm.map Prod.fst
  rw [List.zipIdx_map_fst] at hperm
  exact ⟨hperm, hkeys⟩

/-- The only element of a kind is the last one if all others stand before it. -/
theorem exists_concat_of_after {α : Type} {l : List α} {p : α → Bool} (hnodup : l.Nodup)
    (hone : l.countP p = 1)
    (hafter : ∀ a ∈ l, ∀ b ∈ l, p a = false → p b = true → [a, b].Sublist l) :
    ∃ others last, l = others ++ [last] ∧ p last = true ∧ ∀ a ∈ others, p a = false := by
  rcases List.eq_nil_or_concat' l with rfl | ⟨others, last, rfl⟩
  · simp at hone
  refine ⟨others, last, rfl, ?_⟩
  have hlast : p last = true := by
    by_contra hnot
    rw [Bool.not_eq_true] at hnot
    obtain ⟨b, hb, hpb⟩ := List.countP_pos_iff.1 (by omega : 0 < (others ++ [last]).countP p)
    obtain ⟨front, back, hsplit, hfront, hback⟩ :=
      List.sublist_append_iff.1 (hafter last (by simp) b hb hnot hpb)
    -- What stands behind the last element would have to be that element again.
    rcases List.sublist_singleton.1 hback with rfl | rfl
    · rw [List.append_nil] at hsplit
      subst hsplit
      exact (List.nodup_append.1 hnodup).2.2 last (hfront.subset (by simp)) last (by simp) rfl
    · have heq := congrArg List.getLast? hsplit
      rw [List.getLast?_concat] at heq
      obtain rfl : b = last := Option.some.inj heq
      rw [hnot] at hpb
      cases hpb
  have hothers : others.countP p = 0 := by
    rw [List.countP_append, List.countP_singleton, if_pos hlast] at hone
    omega
  exact ⟨hlast, fun a ha => by simpa using List.countP_eq_zero.1 hothers a ha⟩

/-- With one module class among them, members in order end with it. -/
theorem exists_root_of_ordered {members out : List Member} (h : ordered members = .ok out)
    (hone : members.countP (·.isModuleClass) = 1) :
    ∃ others root, out = others ++ [root] ∧ root.isModuleClass = true ∧
      ∀ member ∈ others, member.isModuleClass = false := by
  have hout : out.countP (·.isModuleClass) = 1 := (perm_of_ordered h).1.countP_eq _ ▸ hone
  obtain ⟨-, classes, hsel, rfl⟩ := exists_selection_of_ordered h
  have horder := isEmissionOrder_of_selection hsel
  -- Members may be equal, so "before" is said of entries.
  have hnodup := horder.perm.nodup_iff.2 ((zipIdx_pairwise_lt members).imp fun hlt heq => by
    rw [heq] at hlt
    exact Nat.lt_irrefl _ hlt)
  rw [List.countP_map] at hout
  obtain ⟨others, root, hsplit, hroot, hothers⟩ :=
    exists_concat_of_after hnodup hout fun a ha b hb hanot hbmodule =>
      horder.moduleClass_after a (horder.perm.subset ha) b (horder.perm.subset hb) hanot hbmodule
  refine ⟨others.map Prod.fst, root.1, by rw [hsplit, List.map_append]; rfl, hroot, ?_⟩
  intro member hmember
  obtain ⟨entry, hentry, rfl⟩ := List.mem_map.1 hmember
  exact hothers entry hentry

/-- Members have an order exactly when no two classes have one key and no class waits for itself,
and every order is the greedy one. -/
theorem ordered_greedy_topological (members : List Member) :
    ((∃ out, ordered members = .ok out) ↔
      DistinctKeys members ∧ Acyclic Entry.Precedes (classEntries members)) ∧
    ∀ out, ordered members = .ok out → ∃ aliases classes : List Entry,
      out = (aliases ++ classes).map Prod.fst ∧ IsEmissionOrder members aliases classes := by
  have hperm := entriesByPosition_perm (classEntries members)
  refine ⟨⟨?_, ?_⟩, ?_⟩
  · -- Whatever has an order left nothing stuck.
    rintro ⟨out, hout⟩
    obtain ⟨hkeys, classes, hsel, -⟩ := exists_selection_of_ordered hout
    exact ⟨hkeys, (hsel.stuck_eq_nil_iff.1 rfl).mono hperm.symm.subset⟩
  · rintro ⟨hkeys, hacyclic⟩
    obtain ⟨classes, stuck, hsel, hok, -⟩ := exists_selection_ordered hkeys
    exact ⟨_, hok (hsel.stuck_eq_nil_iff.2 (hacyclic.mono hperm.subset))⟩
  · intro out hout
    obtain ⟨-, classes, hsel, rfl⟩ := exists_selection_of_ordered hout
    exact ⟨_, classes, rfl, isEmissionOrder_of_selection hsel⟩

end PklBindings.Member
