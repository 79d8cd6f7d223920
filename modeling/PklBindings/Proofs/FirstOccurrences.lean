import Mathlib.Data.List.Basic

/-!
# First occurrences

What `List.eraseDups` leaves of a list: every element once, in the order in which the elements
occur first (`firstOccurrences_eraseDups`).
-/

namespace PklBindings

variable {α : Type} [BEq α] [LawfulBEq α]

/-- `firsts` has every element of `all` once, in the order in which they occur first. -/
structure FirstOccurrences (all firsts : List α) : Prop where
  mem_iff : ∀ a, a ∈ firsts ↔ a ∈ all
  ordered : firsts.Pairwise fun a b => all.idxOf a < all.idxOf b

omit [LawfulBEq α] in
theorem FirstOccurrences.nodup {all firsts : List α} (h : FirstOccurrences all firsts) :
    firsts.Nodup :=
  h.ordered.imp fun hlt heq => by
    rw [heq] at hlt
    exact Nat.lt_irrefl _ hlt

/-- Leaving out other elements does not change which of two comes first. -/
theorem idxOf_lt_of_filter {p : α → Bool} {a b : α} (ha : p a = true) (hb : p b = true)
    (all : List α) (h : (all.filter p).idxOf a < (all.filter p).idxOf b) :
    all.idxOf a < all.idxOf b := by
  induction all with
  | nil => simp at h
  | cons c all ih =>
      rw [List.filter_cons] at h
      split at h
      · have hcb : c ≠ b := by
          rintro rfl
          rw [List.idxOf_cons_self] at h
          exact Nat.not_lt_zero _ h
        rw [List.idxOf_cons_ne _ hcb] at h ⊢
        by_cases hca : c = a
        · rw [hca, List.idxOf_cons_self]
          exact Nat.succ_pos _
        · rw [List.idxOf_cons_ne _ hca] at h ⊢
          exact Nat.succ_lt_succ (ih (Nat.lt_of_succ_lt_succ h))
      · -- The element in front is left out, so it is neither of the two.
        rename_i hc
        have hca : c ≠ a := fun heq => hc (heq ▸ ha)
        have hcb : c ≠ b := fun heq => hc (heq ▸ hb)
        rw [List.idxOf_cons_ne _ hca, List.idxOf_cons_ne _ hcb]
        exact Nat.succ_lt_succ (ih h)

theorem firstOccurrences_eraseDups (all : List α) : FirstOccurrences all all.eraseDups := by
  refine ⟨fun a => List.mem_eraseDups, ?_⟩
  induction hlength : all.length using Nat.strongRecOn generalizing all with
  | _ n ih =>
    cases all with
    | nil => simp
    | cons c all =>
        rw [List.eraseDups_cons, List.pairwise_cons]
        have hne : ∀ {a}, a ∈ (all.filter fun b => !b == c).eraseDups → c ≠ a := by
          intro a ha heq
          rw [List.mem_eraseDups, List.mem_filter] at ha
          simp [heq] at ha
        constructor
        · intro a ha
          rw [List.idxOf_cons_self, List.idxOf_cons_ne _ (hne ha)]
          exact Nat.succ_pos _
        · -- What is left of the rest is in the order of the rest.
          have hshorter : (all.filter fun b => !b == c).length < n := by
            rw [← hlength, List.length_cons]
            exact Nat.lt_succ_of_le (List.length_filter_le _ _)
          refine (ih _ hshorter _ rfl).imp_of_mem fun {a b} ha hb hlt => ?_
          rw [List.idxOf_cons_ne _ (hne ha), List.idxOf_cons_ne _ (hne hb)]
          apply Nat.succ_lt_succ
          apply idxOf_lt_of_filter _ _ _ hlt
          · simpa using (hne ha).symm
          · simpa using (hne hb).symm

end PklBindings
