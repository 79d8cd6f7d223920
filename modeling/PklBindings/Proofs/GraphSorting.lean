import Mathlib.Data.List.Sort
import PklBindings.Graph
import PklBindings.Proofs.Selection

/-!
# Sorting graphs

To sort a graph is to select its nodes greedily: each time the least node is placed of those that no
waiting node leads to, and the nodes that stay blocked are those that are never selected
(`Graph.selection_sort`). The sorting itself asks for no predecessors, it only counts. What carries
it is that the count of a node is the number of the edges that lead to it from waiting nodes, with
each of several edges between two nodes counted (`Graph.Invariant`). The counts that are left in the
end therefore tell the nodes on circles and those behind them (`Graph.inDegree_sort_ne_zero_iff`).
-/

namespace PklBindings.Graph

open Sorting

variable {n : Nat} {edges : List (Fin n × Fin n)} {waiting front back : List (Fin n)} {i j : Fin n}

/-! ## Counting edges -/

/-- An edge leads from one node to the other. -/
def Leads (edges : List (Fin n × Fin n)) (i j : Fin n) : Prop :=
  (i, j) ∈ edges

/-- How many edges lead to a node from waiting nodes. -/
def edgesLeft (edges : List (Fin n × Fin n)) (waiting : List (Fin n)) (j : Fin n) : Nat :=
  edges.countP fun edge => edge.1 ∈ waiting ∧ edge.2 = j

theorem edgesLeft_eq_zero_iff :
    edgesLeft edges waiting j = 0 ↔ Ready (Leads edges) waiting j := by
  rw [edgesLeft, List.countP_eq_zero]
  constructor
  · intro hnone i hi hedge
    apply hnone (i, j) hedge
    simpa using hi
  · rintro hready ⟨i, k⟩ hedge hcounted
    obtain ⟨hi, rfl⟩ : i ∈ waiting ∧ k = j := by simpa using hcounted
    exact hready i hi hedge

theorem get_set {α : Type} (xs : Vector α n) (i j : Fin n) (x : α) :
    (xs.set i x i.isLt).get j = if i = j then x else xs.get j := by
  simp only [← Fin.val_inj]
  exact Vector.getElem_set i.isLt j.isLt

theorem get_replicate {α : Type} (x : α) (i : Fin n) : (Vector.replicate n x).get i = x :=
  Vector.getElem_replicate i.isLt

theorem inDegree_foldl_addEdge (edges : List (Fin n × Fin n)) (g : Graph n) (j : Fin n) :
    (edges.foldl addEdge g).inDegree.get j = g.inDegree.get j + edges.countP (·.2 = j) := by
  induction edges generalizing g with
  | nil => rfl
  | cons edge edges ih =>
      have hedge : (g.addEdge edge).inDegree.get j =
          g.inDegree.get j + if edge.2 = j then 1 else 0 := by
        rw [addEdge, get_set]
        split
        · rename_i hj
          rw [hj]
        · rfl
      rw [List.foldl_cons, ih, hedge, List.countP_cons]
      simp only [decide_eq_true_eq]
      omega

theorem successors_foldl_addEdge (edges : List (Fin n × Fin n)) (g : Graph n) (i : Fin n) :
    (edges.foldl addEdge g).successors.get i =
      g.successors.get i ++ (edges.filter (·.1 = i)).map Prod.snd := by
  induction edges generalizing g with
  | nil => exact (List.append_nil _).symm
  | cons edge edges ih =>
      rw [List.foldl_cons, ih, addEdge, get_set]
      by_cases hi : edge.1 = i
      · subst hi
        simp
      · simp [hi]

theorem inDegree_ofEdges (edges : List (Fin n × Fin n)) (j : Fin n) :
    (ofEdges edges).inDegree.get j = edges.countP (·.2 = j) := by
  rw [ofEdges, inDegree_foldl_addEdge, empty, get_replicate, Nat.zero_add]

theorem successors_ofEdges (edges : List (Fin n × Fin n)) (i : Fin n) :
    (ofEdges edges).successors.get i = (edges.filter (·.1 = i)).map Prod.snd := by
  rw [ofEdges, successors_foldl_addEdge, empty, get_replicate, List.nil_append]

/-- With a node gone from the waiting ones, the edges are gone that leave it. -/
theorem edgesLeft_append_cons (hi : i ∉ front ++ back) (j : Fin n) :
    edgesLeft edges (front ++ i :: back) j =
      edgesLeft edges (front ++ back) j + ((ofEdges edges).successors.get i).count j := by
  have hleft : ∀ edge : Fin n × Fin n,
      edge.1 ∈ front ++ i :: back ↔ edge.1 = i ∨ edge.1 ∈ front ++ back := by
    intro edge
    rw [List.perm_middle.mem_iff, List.mem_cons]
  rw [successors_ofEdges, edgesLeft, edgesLeft]
  induction edges with
  | nil => rfl
  | cons edge edges ih =>
      rw [List.countP_cons, List.countP_cons, ih]
      simp only [hleft]
      by_cases hedge : edge.1 = i
      · subst hedge
        rw [List.filter_cons_of_pos (by simp), List.map_cons, List.count_cons]
        simp only [hi, true_or, false_and, true_and, decide_eq_true_eq, beq_iff_eq, if_false]
        omega
      · rw [List.filter_cons_of_neg (by simpa using hedge)]
        simp only [hedge, false_or]
        omega

/-! ## The queue -/

theorem mem_enqueue {queue : List (Fin n)} : j ∈ enqueue i queue ↔ j = i ∨ j ∈ queue := by
  induction queue with
  | nil => simp [enqueue]
  | cons k queue ih =>
      rw [enqueue]
      split
      · simp
      · rw [List.mem_cons, ih, List.mem_cons]
        exact or_left_comm

theorem pairwise_enqueue {queue : List (Fin n)} (h : queue.Pairwise (· < ·)) (hi : i ∉ queue) :
    (enqueue i queue).Pairwise (· < ·) := by
  induction queue with
  | nil => exact List.pairwise_singleton _ i
  | cons k queue ih =>
      rw [List.mem_cons, not_or] at hi
      obtain ⟨hk, hqueue⟩ := List.pairwise_cons.1 h
      rw [enqueue]
      split
      · rename_i hle
        have hik : i < k := lt_of_le_of_ne hle hi.1
        refine List.pairwise_cons.2 ⟨fun j hj => ?_, h⟩
        rcases List.mem_cons.1 hj with rfl | hj
        · exact hik
        · exact hik.trans (hk j hj)
      · rename_i hnot
        refine List.pairwise_cons.2 ⟨fun j hj => ?_, ih hqueue hi.2⟩
        rcases mem_enqueue.1 hj with rfl | hj
        · exact not_le.1 hnot
        · exact hk j hj

theorem foldl_enqueue {nodes queue : List (Fin n)} (hnodes : nodes.Nodup)
    (hqueue : queue.Pairwise (· < ·)) (hnew : ∀ i ∈ nodes, i ∉ queue) :
    (nodes.foldl (fun ready i => enqueue i ready) queue).Pairwise (· < ·) ∧
      ∀ j, j ∈ nodes.foldl (fun ready i => enqueue i ready) queue ↔ j ∈ nodes ∨ j ∈ queue := by
  induction nodes generalizing queue with
  | nil => exact ⟨hqueue, by simp⟩
  | cons i nodes ih =>
      obtain ⟨hi, hnodes⟩ := List.nodup_cons.1 hnodes
      obtain ⟨hinew, hnew⟩ := List.forall_mem_cons.1 hnew
      have hrest : ∀ j ∈ nodes, j ∉ enqueue i queue := by
        intro j hj hmem
        rcases mem_enqueue.1 hmem with rfl | hmem
        · exact hi hj
        · exact hnew j hj hmem
      obtain ⟨hsorted, hmem⟩ := ih hnodes (pairwise_enqueue hqueue hinew) hrest
      refine ⟨hsorted, fun j => ?_⟩
      rw [List.foldl_cons, hmem, mem_enqueue, List.mem_cons, or_assoc]
      exact or_left_comm

/-! ## The state -/

/-- The queue has the waiting nodes to which no edges are left, and none are left to the others. -/
structure Tidy (waiting : List (Fin n)) (s : Sorting n) : Prop where
  ready_sorted : s.ready.Pairwise (· < ·)
  mem_ready_iff : ∀ i, i ∈ s.ready ↔ i ∈ waiting ∧ s.inDegree.get i = 0
  inDegree_eq_zero : ∀ i, i ∉ waiting → s.inDegree.get i = 0

/-- What holds between two steps: the state is tidy, and it has counted right. -/
structure Invariant (edges : List (Fin n × Fin n)) (waiting : List (Fin n)) (s : Sorting n) : Prop
    extends Tidy waiting s where
  waiting_sorted : waiting.Pairwise (· < ·)
  inDegree_eq : ∀ j, s.inDegree.get j = edgesLeft edges waiting j

section Release

variable {s : Sorting n}

theorem inDegree_release (s : Sorting n) (i j : Fin n) :
    (s.release i).inDegree.get j = s.inDegree.get j - if i = j then 1 else 0 := by
  rw [release, get_set]
  split
  · rename_i hij
    rw [hij]
  · rfl

theorem placed_foldl_release (targets : List (Fin n)) (s : Sorting n) :
    (targets.foldl release s).placed = s.placed := by
  induction targets generalizing s with
  | nil => rfl
  | cons i targets ih => exact ih (s.release i)

/-- The state stays tidy when one of the edges is taken away that are left to a node. -/
theorem Tidy.release (h : Tidy waiting s) (hi : s.inDegree.get i ≠ 0) :
    Tidy waiting (s.release i) := by
  have hwaiting : i ∈ waiting := by
    by_contra hnot
    exact hi (h.inDegree_eq_zero i hnot)
  have hqueue : i ∉ s.ready := fun hmem => hi ((h.mem_ready_iff i).1 hmem).2
  constructor
  · rw [Sorting.release]
    split
    · exact pairwise_enqueue h.ready_sorted hqueue
    · exact h.ready_sorted
  · intro j
    have hready : j ∈ (s.release i).ready ↔ j ∈ s.ready ∨ (j = i ∧ s.inDegree.get i = 1) := by
      rw [Sorting.release]
      split
      · rename_i hone
        rw [mem_enqueue, or_comm]
        simp only [hone, and_true]
      · rename_i hmore
        simp only [hmore, and_false, or_false]
    rw [hready, h.mem_ready_iff, inDegree_release]
    by_cases hij : i = j
    · subst hij
      simp only [hwaiting, true_and, if_true]
      omega
    · simp [hij, Ne.symm hij]
  · intro j hj
    rw [inDegree_release, h.inDegree_eq_zero j hj, Nat.zero_sub]

/-- The edges that leave a node are taken away one by one. -/
theorem Tidy.foldl_release {targets : List (Fin n)} (h : Tidy waiting s)
    (hcount : ∀ j, targets.count j ≤ s.inDegree.get j) :
    Tidy waiting (targets.foldl .release s) ∧
      ∀ j, (targets.foldl Sorting.release s).inDegree.get j =
        s.inDegree.get j - targets.count j := by
  induction targets generalizing s with
  | nil => exact ⟨h, fun j => rfl⟩
  | cons i targets ih =>
      have hi : s.inDegree.get i ≠ 0 := by
        have hle := hcount i
        rw [List.count_cons_self] at hle
        omega
      have hrest : ∀ j, targets.count j ≤ (s.release i).inDegree.get j := by
        intro j
        have hle := hcount j
        rw [List.count_cons] at hle
        rw [inDegree_release]
        simp only [beq_iff_eq] at hle
        omega
      obtain ⟨htidy, hleft⟩ := ih (h.release hi) hrest
      refine ⟨htidy, fun j => ?_⟩
      rw [List.foldl_cons, hleft, inDegree_release, List.count_cons]
      simp only [beq_iff_eq]
      omega

/-- With the first node of the queue placed, the state is tidy for the others. -/
theorem Tidy.pop (h : Tidy (front ++ i :: back) s) {ready : List (Fin n)}
    (hready : s.ready = i :: ready) (hi : i ∉ front ++ back) :
    Tidy (front ++ back) { s with placed := s.placed ++ [i], ready } := by
  obtain ⟨hleast, hsorted⟩ := List.pairwise_cons.1 (hready ▸ h.ready_sorted)
  refine ⟨hsorted, fun j => ?_, fun j hj => ?_⟩
  · have hmem := h.mem_ready_iff j
    rw [hready, List.mem_cons, List.perm_middle.mem_iff, List.mem_cons] at hmem
    by_cases hij : j = i
    · subst hij
      exact iff_of_false (fun hj => lt_irrefl j (hleast j hj)) fun hj => hi hj.1
    · simpa [hij] using hmem
  · by_cases hij : j = i
    · rw [hij]
      exact ((h.mem_ready_iff i).1 (by rw [hready]; exact List.mem_cons_self)).2
    · apply h.inDegree_eq_zero j
      rw [List.perm_middle.mem_iff, List.mem_cons, not_or]
      exact ⟨hij, hj⟩

end Release

/-! ## The loop -/

theorem Invariant.start (edges : List (Fin n × Fin n)) :
    Invariant edges (List.finRange n) (ofEdges edges).start := by
  have hnodes : ((List.finRange n).filter fun i => (ofEdges edges).inDegree.get i = 0).Nodup :=
    (List.nodup_finRange n).filter _
  obtain ⟨hsorted, hmem⟩ := foldl_enqueue hnodes .nil fun i _ => List.not_mem_nil
  refine ⟨⟨hsorted, fun i => ?_, fun i hi => ?_⟩, List.pairwise_lt_finRange n, fun j => ?_⟩
  · rw [Graph.start, hmem, List.mem_filter]
    simp
  · exact absurd (List.mem_finRange i) hi
  · have hcounted : (ofEdges edges).start.inDegree.get j = edges.countP (·.2 = j) :=
      inDegree_ofEdges edges j
    rw [hcounted, edgesLeft]
    simp

section Loop

variable {s : Sorting n}

/-- The queue has the waiting nodes that are ready. -/
theorem Invariant.mem_ready (h : Invariant edges waiting s) :
    i ∈ s.ready ↔ i ∈ waiting ∧ Ready (Leads edges) waiting i := by
  rw [h.mem_ready_iff, h.inDegree_eq, edgesLeft_eq_zero_iff]

/-- The node that is placed is the least one that is ready, and the invariant goes on to hold for
the others. -/
theorem Invariant.step (h : Invariant edges waiting s) {ready : List (Fin n)}
    (hready : s.ready = i :: ready) :
    ∃ front back, waiting = front ++ i :: back ∧
      (∀ j ∈ front, ¬ Ready (Leads edges) waiting j) ∧ Ready (Leads edges) waiting i ∧
      ((ofEdges edges).step s).placed = s.placed ++ [i] ∧
      Invariant edges (front ++ back) ((ofEdges edges).step s) := by
  obtain ⟨hwaiting, hiready⟩ := h.mem_ready.1 (by rw [hready]; exact List.mem_cons_self)
  obtain ⟨hleast, -⟩ := List.pairwise_cons.1 (hready ▸ h.ready_sorted)
  obtain ⟨front, back, rfl⟩ := List.append_of_mem hwaiting
  have hi : i ∉ front ++ back :=
    (List.nodup_cons.1 (List.nodup_middle.1 h.waiting_sorted.nodup)).1
  have hstep : (ofEdges edges).step s = ((ofEdges edges).successors.get i).foldl Sorting.release
      { s with placed := s.placed ++ [i], ready } := by
    rw [Graph.step, hready]
  -- The edges that leave `i` are among those that are left, so each can be taken away.
  have hleft := fun j => (h.inDegree_eq j).trans (edgesLeft_append_cons hi j)
  have hcount : ∀ j, ((ofEdges edges).successors.get i).count j ≤ s.inDegree.get j := by
    intro j
    rw [hleft]
    exact Nat.le_add_left _ _
  obtain ⟨htidy, hcounted⟩ := (h.toTidy.pop hready hi).foldl_release hcount
  refine ⟨front, back, rfl, ?_, hiready, ?_, ?_⟩
  · -- Whoever is ready is in the queue, where `i` is the least one.
    intro j hj hjready
    have hlt : j < i := (List.pairwise_append.1 h.waiting_sorted).2.2 j hj i List.mem_cons_self
    have hqueue : j ∈ s.ready := h.mem_ready.2 ⟨List.mem_append_left _ hj, hjready⟩
    rw [hready] at hqueue
    rcases List.mem_cons.1 hqueue with rfl | hqueue
    · exact lt_irrefl j hlt
    · exact lt_asymm hlt (hleast j hqueue)
  · rw [hstep, placed_foldl_release]
  · rw [hstep]
    refine ⟨htidy, ?_, fun j => ?_⟩
    · exact h.waiting_sorted.sublist ((List.sublist_cons_self _ _).append_left _)
    · rw [hcounted, hleft, Nat.add_sub_cancel]

theorem run_of_ready_eq_nil {g : Graph n} (h : s.ready = []) (steps : Nat) :
    g.run steps s = s := by
  induction steps with
  | zero => rfl
  | succ steps ih =>
      have hstep : g.step s = s := by rw [Graph.step, h]
      rw [Graph.run, hstep, ih]

/-- With a step for each waiting node the loop comes to its end, where nobody is ready. By then it
has made a selection. -/
theorem Invariant.run (h : Invariant edges waiting s) {steps : Nat}
    (hsteps : waiting.length ≤ steps) :
    ∃ taken stuck, Selection (Leads edges) waiting taken stuck ∧
      ((ofEdges edges).run steps s).placed = s.placed ++ taken ∧
      ((ofEdges edges).run steps s).ready = [] ∧
      Invariant edges stuck ((ofEdges edges).run steps s) := by
  induction steps generalizing waiting s with
  | zero =>
      obtain rfl : waiting = [] := List.length_eq_zero_iff.1 (Nat.le_zero.1 hsteps)
      have hready : s.ready = [] := by
        apply List.eq_nil_iff_forall_not_mem.2
        intro i hi
        exact absurd ((h.mem_ready_iff i).1 hi).1 List.not_mem_nil
      exact ⟨[], [], .stop (by simp), (List.append_nil _).symm, hready, h⟩
  | succ steps ih =>
      cases hready : s.ready with
      | nil =>
          rw [run_of_ready_eq_nil hready]
          refine ⟨[], waiting, .stop fun i hi hiready => ?_, (List.append_nil _).symm, hready, h⟩
          -- A waiting node that is ready would be in the queue.
          have hmem : i ∈ s.ready := h.mem_ready.2 ⟨hi, hiready⟩
          rw [hready] at hmem
          cases hmem
      | cons i ready =>
          obtain ⟨front, back, rfl, hfront, hiready, hplaced, hnext⟩ := h.step hready
          have hfewer : (front ++ back).length ≤ steps := by
            rw [List.length_append, List.length_cons] at hsteps
            rw [List.length_append]
            omega
          obtain ⟨taken, stuck, hsel, htaken, hdone, hrest⟩ := ih hnext hfewer
          refine ⟨i :: taken, stuck, .take hfront hiready hsel, ?_, hdone, hrest⟩
          rw [Graph.run, htaken, hplaced, List.append_assoc, List.singleton_append]

end Loop

/-- Sorting selects the nodes greedily, and blocks those that are stuck. -/
theorem selection_sort (edges : List (Fin n × Fin n)) :
    Selection (Leads edges) (List.finRange n) (ofEdges edges).sort.placed
      (ofEdges edges).sort.blocked := by
  obtain ⟨taken, stuck, hsel, hplaced, hdone, hend⟩ :=
    (Invariant.start edges).run (Nat.le_of_eq List.length_finRange)
  rw [show (ofEdges edges).sort.placed = taken from hplaced]
  -- In the end nobody is ready: edges are left to whoever still waits, and to nobody else.
  have hstuck : stuck = (ofEdges edges).sort.blocked := by
    apply hend.waiting_sorted.eq_of_mem_iff ((List.pairwise_lt_finRange n).filter _)
    intro i
    have hmem := hend.mem_ready_iff i
    rw [hdone] at hmem
    simp only [List.not_mem_nil, false_iff, not_and] at hmem
    rw [List.mem_filter, decide_eq_true_eq]
    refine ⟨fun hi => ⟨List.mem_finRange i, hmem hi⟩, fun ⟨_, hleft⟩ => ?_⟩
    by_contra hnot
    exact hleft (hend.inDegree_eq_zero i hnot)
  rw [← hstuck]
  exact hsel

/-- In the end edges are left to the nodes on circles and to those that come behind one, and to no
others. -/
theorem inDegree_sort_ne_zero_iff (edges : List (Fin n × Fin n)) (i : Fin n) :
    (ofEdges edges).sort.inDegree.get i ≠ 0 ↔
      ∃ c, Relation.TransGen (Leads edges) c c ∧ Relation.ReflTransGen (Leads edges) c i := by
  have hblocked : i ∈ (ofEdges edges).sort.blocked ↔ (ofEdges edges).sort.inDegree.get i ≠ 0 := by
    rw [blocked, List.mem_filter, decide_eq_true_eq]
    exact and_iff_right (List.mem_finRange i)
  have hwithin : Within (Leads edges) (List.finRange n) = Leads edges := by
    funext j k
    simp [Within]
  rw [← hblocked, (selection_sort edges).mem_stuck_iff, Circular, hwithin]

end PklBindings.Graph
