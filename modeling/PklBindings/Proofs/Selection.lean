import Mathlib.Data.Fintype.Card
import Mathlib.Data.Set.Finite.Basic
import Mathlib.Logic.Relation

/-!
# Greedy selection under a precedence

A list of elements waits. As long as there is one, the first element that no waiting element
precedes is taken out; what cannot be taken stays stuck (`Selection`). Every element is taken or
stuck (`Selection.perm`), and the taken elements come in greedy order: each one is the least of
those that were ready, in any order in which the waiting elements were sorted
(`Selection.greedy`). Nothing gets stuck exactly when no elements precede each other in a circle
(`Selection.stuck_eq_nil_iff`), and else those get stuck that are on a circle or come behind one
(`Selection.mem_stuck_iff`).
-/

namespace PklBindings

variable {α : Type} {prec : α → α → Prop}

/-- No waiting element precedes `a`. -/
def Ready (prec : α → α → Prop) (waiting : List α) (a : α) : Prop :=
  ∀ p ∈ waiting, ¬ prec p a

/-- `Selection prec waiting taken stuck`: taking the first ready element again and again takes
`taken`, in this order, and leaves `stuck`. -/
inductive Selection (prec : α → α → Prop) : List α → List α → List α → Prop
  | stop {waiting : List α} :
      (∀ a ∈ waiting, ¬ Ready prec waiting a) → Selection prec waiting [] waiting
  | take {front back taken stuck : List α} {a : α} :
      (∀ b ∈ front, ¬ Ready prec (front ++ a :: back) b) →
      Ready prec (front ++ a :: back) a →
      Selection prec (front ++ back) taken stuck →
      Selection prec (front ++ a :: back) (a :: taken) stuck

/-- The precedence between members of a list. -/
def Within (prec : α → α → Prop) (elements : List α) (a b : α) : Prop :=
  a ∈ elements ∧ b ∈ elements ∧ prec a b

/-- No element precedes itself, not even through others. -/
def Acyclic (prec : α → α → Prop) (elements : List α) : Prop :=
  ∀ a, ¬ Relation.TransGen (Within prec elements) a a

/-- An element of a circle precedes `a`, be it through others, or is `a`. -/
def Circular (prec : α → α → Prop) (elements : List α) (a : α) : Prop :=
  ∃ c, Relation.TransGen (Within prec elements) c c ∧
    Relation.ReflTransGen (Within prec elements) c a

theorem ready_congr {waiting waiting' : List α} (h : waiting.Perm waiting') (a : α) :
    Ready prec waiting a ↔ Ready prec waiting' a := by
  unfold Ready
  exact forall_congr' fun p => by rw [h.mem_iff]

namespace Selection

variable {waiting taken stuck : List α}

/-- Every waiting element is either taken or stuck. -/
theorem perm (h : Selection prec waiting taken stuck) : (taken ++ stuck).Perm waiting := by
  induction h with
  | stop _ => exact List.Perm.refl _
  | take _ _ _ ih => exact (ih.cons _).trans List.perm_middle.symm

/-- Every stuck element waits for a stuck one. -/
theorem exists_prec_of_mem_stuck (h : Selection prec waiting taken stuck) :
    ∀ a ∈ stuck, ∃ p ∈ stuck, prec p a := by
  induction h with
  | stop hblocked =>
      intro a ha
      have hnot := hblocked a ha
      unfold Ready at hnot
      push Not at hnot
      exact hnot
  | take _ _ _ ih => exact ih

/-- What is stuck keeps its order. -/
theorem stuck_sublist (h : Selection prec waiting taken stuck) : stuck.Sublist waiting := by
  induction h with
  | stop _ => exact List.Sublist.refl _
  | take _ _ _ ih => exact ih.trans ((List.sublist_cons_self _ _).append_left _)

/-- Elements that wait for each other are never taken. -/
theorem mem_stuck_of_closed {p : α → Prop} (h : Selection prec waiting taken stuck)
    (hclosed : ∀ a ∈ waiting, p a → ∃ b ∈ waiting, p b ∧ prec b a) :
    ∀ a ∈ waiting, p a → a ∈ stuck := by
  induction h with
  | stop _ => exact fun a ha _ => ha
  | @take front back taken stuck c _ hready _ ih =>
      -- The element that is taken waits for none, so it is not one of them.
      have hmem : ∀ a ∈ front ++ c :: back, p a → a ∈ front ++ back := by
        intro a ha hpa
        have hne : a ≠ c := by
          rintro rfl
          obtain ⟨b, hb, -, hprec⟩ := hclosed a ha hpa
          exact hready b hb hprec
        simpa [hne] using ha
      have hwaiting : ∀ a ∈ front ++ back, a ∈ front ++ c :: back := by
        simp only [List.mem_append, List.mem_cons]
        rintro a (ha | ha)
        · exact Or.inl ha
        · exact Or.inr (Or.inr ha)
      intro a ha hpa
      refine ih (fun a ha hpa => ?_) a (hmem a ha hpa) hpa
      obtain ⟨b, hb, hpb, hprec⟩ := hclosed a (hwaiting a ha) hpa
      exact ⟨b, hmem b hb hpb, hpb, hprec⟩

/-- At every position of the taken elements stands the least of those that are ready there, in
every order that sorts the waiting elements. -/
theorem greedy {r : α → α → Prop} (h : Selection prec waiting taken stuck)
    (hsorted : waiting.Pairwise r) {done rest : List α} {a : α}
    (hsplit : taken = done ++ a :: rest) :
    Ready prec (a :: rest ++ stuck) a ∧
      ∀ b ∈ rest ++ stuck, Ready prec (a :: rest ++ stuck) b → r a b := by
  induction h generalizing done with
  | stop _ => simp at hsplit
  | @take front back taken stuck c hfront hready hsel ih =>
      cases done with
      | nil =>
          -- At the first position nothing is gone yet: the taken and the stuck are all that waited.
          simp only [List.nil_append, List.cons.injEq] at hsplit
          obtain ⟨rfl, rfl⟩ := hsplit
          have hperm : (c :: taken ++ stuck).Perm (front ++ c :: back) :=
            (hsel.perm.cons c).trans List.perm_middle.symm
          refine ⟨(ready_congr hperm c).2 hready, ?_⟩
          intro b hb hbready
          have hbmem : b ∈ front ++ back := hsel.perm.mem_iff.1 hb
          rcases List.mem_append.1 hbmem with hbfront | hbback
          · exact absurd ((ready_congr hperm b).1 hbready) (hfront b hbfront)
          · -- What waited behind `c` is greater in the order that sorts the waiting elements.
            have htail := (List.pairwise_append.1 hsorted).2.1
            exact (List.pairwise_cons.1 htail).1 b hbback
      | cons d done =>
          -- Later positions belong to the selection among what waits without `d`.
          simp only [List.cons_append, List.cons.injEq] at hsplit
          obtain ⟨rfl, hsplit⟩ := hsplit
          refine ih ?_ hsplit
          exact hsorted.sublist ((List.sublist_cons_self _ _).append_left _)

/-- If nothing is stuck, all that precedes a taken element was taken before it. -/
theorem mem_of_split (h : Selection prec waiting taken []) {done rest : List α} {a p : α}
    (hsplit : taken = done ++ a :: rest) (hp : Within prec waiting p a) : p ∈ done := by
  have hperm : taken.Perm waiting := by simpa using h.perm
  have hready := (h.greedy (r := fun _ _ => True) (List.pairwise_of_forall (by simp)) hsplit).1
  have hmem : p ∈ done ++ a :: rest := hsplit ▸ hperm.mem_iff.2 hp.1
  rcases List.mem_append.1 hmem with hdone | hrest
  · exact hdone
  · exact absurd hp.2.2 (hready p (by simpa using hrest))

/-- If nothing is stuck, all that precedes a taken element was taken before it, and at every
position stands the least of the elements of which this holds. -/
theorem least_of_split {r : α → α → Prop} (h : Selection prec waiting taken [])
    (hsorted : waiting.Pairwise r) (hnodup : waiting.Nodup) {done rest : List α} {a : α}
    (hsplit : taken = done ++ a :: rest) :
    (∀ p, Within prec waiting p a → p ∈ done) ∧
      ∀ b ∈ rest, (∀ p, Within prec waiting p b → p ∈ done) → r a b := by
  have hperm : (done ++ a :: rest).Perm waiting := by simpa [hsplit] using h.perm
  obtain ⟨-, hleast⟩ := h.greedy hsorted hsplit
  simp only [List.append_nil] at hleast
  constructor
  · intro p hp
    exact h.mem_of_split hsplit hp
  · intro b hb hbready
    refine hleast b hb fun p hp hprec => ?_
    -- A predecessor that is not taken yet would be among the taken as well.
    have hpdone : p ∈ done := hbready p
      ⟨hperm.subset (List.mem_append_right _ hp),
        hperm.subset (List.mem_append_right _ (List.mem_cons_of_mem _ hb)), hprec⟩
    exact (List.nodup_append.1 (hperm.nodup_iff.2 hnodup)).2.2 p hpdone p hp rfl

/-- If nothing is stuck, an element is taken after all that precede it. -/
theorem sublist_of_within (h : Selection prec waiting taken []) {a b : α}
    (hab : Within prec waiting a b) : [a, b].Sublist taken := by
  have hperm : taken.Perm waiting := by simpa using h.perm
  obtain ⟨done, rest, hsplit⟩ := List.append_of_mem (hperm.mem_iff.2 hab.2.1)
  have hdone : a ∈ done := h.mem_of_split hsplit hab
  rw [hsplit]
  exact (List.singleton_sublist.2 hdone).append (List.singleton_sublist.2 List.mem_cons_self)

/-- A selection among elements is one among their images, if the images precede each other as the
elements do. -/
theorem map {β : Type} {prec' : β → β → Prop} {f : α → β} (h : Selection prec waiting taken stuck)
    (hprec : ∀ a b, prec a b ↔ prec' (f a) (f b)) :
    Selection prec' (waiting.map f) (taken.map f) (stuck.map f) := by
  have hready : ∀ (l : List α) (a : α), Ready prec l a ↔ Ready prec' (l.map f) (f a) := by
    intro l a
    simp [Ready, hprec]
  induction h with
  | stop hblocked =>
      apply Selection.stop
      intro b hb
      obtain ⟨a, ha, rfl⟩ := List.mem_map.1 hb
      rw [← hready]
      exact hblocked a ha
  | @take front back taken stuck a hfront ha _ ih =>
      rw [List.map_append] at ih
      rw [List.map_append, List.map_cons, List.map_cons]
      refine .take (fun b hb => ?_) ?_ ih
      · obtain ⟨c, hc, rfl⟩ := List.mem_map.1 hb
        rw [← List.map_cons, ← List.map_append, ← hready]
        exact hfront c hc
      · rw [← List.map_cons, ← List.map_append, ← hready]
        exact ha

end Selection

/-! ## Circles -/

/-- An accessible element does not precede itself. -/
theorem not_transGen_self_of_acc {r : α → α → Prop} {a : α} (h : Acc r a) :
    ¬ Relation.TransGen r a a := by
  have htrans : Acc (Relation.TransGen r) a := h.transGen
  clear h
  induction htrans with
  | intro x _ ih => exact fun hx => ih x hx hx

/-- If every element of a list is preceded by one of the list, some element precedes itself. -/
theorem not_acyclic_of_forall_exists_prec {elements : List α} (hne : elements ≠ [])
    (h : ∀ a ∈ elements, ∃ p ∈ elements, prec p a) : ¬ Acyclic prec elements := by
  intro hacyclic
  let r : {a // a ∈ elements} → {a // a ∈ elements} → Prop :=
    fun x y => Relation.TransGen (Within prec elements) x.1 y.1
  have : Finite {a // a ∈ elements} := elements.finite_toSet.to_subtype
  have : IsTrans {a // a ∈ elements} r := ⟨fun _ _ _ hxy hyz => hxy.trans hyz⟩
  have : Std.Irrefl r := ⟨fun x hx => hacyclic x.1 hx⟩
  -- Without circles the finitely many elements would have a least one, which nobody precedes.
  have hwf : WellFounded r := Finite.wellFounded_of_trans_of_irrefl r
  obtain ⟨a, ha⟩ := List.exists_mem_of_ne_nil elements hne
  refine hwf.induction (C := fun _ => False) ⟨a, ha⟩ fun m ih => ?_
  obtain ⟨p, hp, hprec⟩ := h m.1 m.2
  exact ih ⟨p, hp⟩ (Relation.TransGen.single ⟨hp, m.2, hprec⟩)

theorem Circular.exists_prec {elements : List α} {a : α} (h : Circular prec elements a) :
    ∃ p, Circular prec elements p ∧ Within prec elements p a := by
  obtain ⟨c, hcircle, hbehind⟩ := h
  obtain ⟨p, hp, hstep⟩ := Relation.TransGen.tail'_iff.1 (hcircle.trans_left hbehind)
  exact ⟨p, ⟨c, hcircle, hp⟩, hstep⟩

/-- If every element of a part is preceded by one of the part, a circle is before each of them. -/
theorem circular_of_forall_exists_prec {elements part : List α} (hsub : part ⊆ elements)
    (h : ∀ a ∈ part, ∃ p ∈ part, prec p a) : ∀ a ∈ part, Circular prec elements a := by
  classical
  intro a ha
  -- Among the elements from which `a` is reached, each is preceded by one as well.
  let before := part.filter fun x => Relation.ReflTransGen (Within prec elements) x a
  have hmem {x : α} : x ∈ before ↔
      x ∈ part ∧ Relation.ReflTransGen (Within prec elements) x a := by
    simp [before]
  have hne : before ≠ [] := List.ne_nil_of_mem (hmem.2 ⟨ha, .refl⟩)
  have hcircle : ¬ Acyclic prec before := by
    refine not_acyclic_of_forall_exists_prec hne fun x hx => ?_
    obtain ⟨hxpart, hxa⟩ := hmem.1 hx
    obtain ⟨p, hp, hprec⟩ := h x hxpart
    exact ⟨p, hmem.2 ⟨hp, .head ⟨hsub hp, hsub hxpart, hprec⟩ hxa⟩, hprec⟩
  unfold Acyclic at hcircle
  push Not at hcircle
  obtain ⟨c, hc⟩ := hcircle
  obtain ⟨_, -, hlast⟩ := Relation.TransGen.tail'_iff.1 hc
  have hstep : ∀ x y, Within prec before x y → Within prec elements x y := fun x y hxy =>
    ⟨hsub (hmem.1 hxy.1).1, hsub (hmem.1 hxy.2.1).1, hxy.2.2⟩
  exact ⟨c, Relation.TransGen.mono hstep _ _ hc, (hmem.1 hlast.2.1).2⟩

theorem Acyclic.mono {elements elements' : List α} (h : Acyclic prec elements)
    (hsub : elements' ⊆ elements) : Acyclic prec elements' :=
  fun a ha => h a
    (Relation.TransGen.mono (fun _ _ hxy => ⟨hsub hxy.1, hsub hxy.2.1, hxy.2.2⟩) _ _ ha)

namespace Selection

variable {waiting taken stuck : List α}

/-- If nothing is stuck, no element precedes itself: the elements that precede a taken one were
taken before it. -/
theorem acyclic (h : Selection prec waiting taken []) : Acyclic prec waiting := by
  have hperm : taken.Perm waiting := by simpa using h.perm
  -- The induction is on the number of elements taken before `a`.
  have hacc : ∀ n, ∀ done a rest, done.length = n → taken = done ++ a :: rest →
      Acc (Within prec waiting) a := by
    intro n
    induction n using Nat.strong_induction_on with
    | _ n ih =>
        intro done a rest hlength hsplit
        refine Acc.intro _ fun p hp => ?_
        have hdone : p ∈ done := h.mem_of_split hsplit hp
        obtain ⟨done₁, done₂, rfl⟩ := List.append_of_mem hdone
        refine ih done₁.length ?_ done₁ p (done₂ ++ a :: rest) rfl (by simp [hsplit])
        simp only [List.length_append, List.length_cons] at hlength
        omega
  intro a hcycle
  -- Both ends of a step within the list are in the list, and so was taken what is on a circle.
  have ha : a ∈ taken := by
    cases hcycle with
    | single hstep => exact hperm.mem_iff.2 hstep.1
    | tail _ hstep => exact hperm.mem_iff.2 hstep.2.1
  obtain ⟨done, rest, hsplit⟩ := List.append_of_mem ha
  exact not_transGen_self_of_acc (hacc done.length done a rest rfl hsplit) hcycle

/-- Nothing is stuck exactly when no element precedes itself. -/
theorem stuck_eq_nil_iff (h : Selection prec waiting taken stuck) :
    stuck = [] ↔ Acyclic prec waiting := by
  constructor
  · rintro rfl
    exact h.acyclic
  · intro hacyclic
    by_contra hne
    refine not_acyclic_of_forall_exists_prec hne h.exists_prec_of_mem_stuck
      (hacyclic.mono fun a ha => ?_)
    exact h.perm.subset (List.mem_append_right _ ha)

/-- The elements of circles are stuck, and those that come behind one. -/
theorem mem_stuck_iff (h : Selection prec waiting taken stuck) {a : α} :
    a ∈ stuck ↔ Circular prec waiting a := by
  constructor
  · have hsub : stuck ⊆ waiting := h.stuck_sublist.subset
    exact circular_of_forall_exists_prec hsub h.exists_prec_of_mem_stuck a
  · intro ha
    obtain ⟨_, -, hmem⟩ := ha.exists_prec
    refine h.mem_stuck_of_closed (fun b _ hb => ?_) a hmem.2.1 ha
    obtain ⟨p, hp, hstep⟩ := hb.exists_prec
    exact ⟨p, hstep.1, hp, hstep.2.2⟩

end Selection

end PklBindings
