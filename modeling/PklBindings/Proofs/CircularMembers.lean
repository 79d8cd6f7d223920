import PklBindings.Proofs.MemberOrder
import PklBindings.Proofs.Texts

/-!
# Members without an order

When classes wait for each other in a circle, sorting ends with edges left. The classes to which
they lead make the error: those on circles and those that come behind one, each once, as they were
declared (`Member.cycle_lists_circular`). In words they are their keys with commas between them. A
single empty key in front of others is the exception: nothing stands for it, not even a comma
(`OrderError.keyList_eq_iff`).
-/

namespace PklBindings

/-! ## Keys in words -/

theorem mem_toList_intercalate {separator : String} {texts : List String} {c : Char}
    (h : c ∈ (separator.intercalate texts).toList) :
    c ∈ separator.toList ∨ ∃ s ∈ texts, c ∈ s.toList := by
  induction texts with
  | nil => simp at h
  | cons s texts ih =>
      cases texts with
      | nil => exact Or.inr ⟨s, by simp, by simpa using h⟩
      | cons t texts =>
          rw [String.intercalate_cons_cons, String.toList_append, String.toList_append,
            List.mem_append, List.mem_append] at h
          rcases h with (hs | hseparator) | hrest
          · exact Or.inr ⟨s, by simp, hs⟩
          · exact Or.inl hseparator
          · obtain hseparator | ⟨u, hu, hc⟩ := ih hrest
            · exact Or.inl hseparator
            · exact Or.inr ⟨u, List.mem_cons_of_mem _ hu, hc⟩

namespace OrderError

/-- Once there is text, every key behind it gets its comma. -/
theorem foldl_keys {text : String} (htext : text ≠ "") (keys : List String) :
    keys.foldl (fun text key => (if text = "" then text else text ++ ", ") ++ key) text =
      ", ".intercalate (text :: keys) := by
  induction keys generalizing text with
  | nil => rfl
  | cons key keys ih =>
      have hmore : text ++ ", " ++ key ≠ "" := by simp [htext]
      rw [List.foldl_cons, if_neg htext, ih hmore, String.intercalate_cons_cons]
      cases keys with
      | nil => rfl
      | cons key' keys =>
          rw [String.intercalate_cons_cons, String.intercalate_cons_cons]
          simp only [String.append_assoc]

/-- Empty keys leave a trace only behind one that is not empty. -/
theorem keyList_eq_intercalate (keys : List String) :
    keyList keys = ", ".intercalate (keys.dropWhile (· = "")) := by
  induction keys with
  | nil => rfl
  | cons key keys ih =>
      have hfirst : keyList (key :: keys) =
          keys.foldl (fun text key => (if text = "" then text else text ++ ", ") ++ key) key := by
        rw [keyList, List.foldl_cons, if_pos rfl, String.empty_append]
      by_cases hempty : key = ""
      · rw [hfirst, hempty, List.dropWhile_cons_of_pos (by simp), ← ih, keyList]
      · rw [hfirst, foldl_keys hempty, List.dropWhile_cons_of_neg (by simpa using hempty)]

/-- Different keys stand one after another with commas between them, unless the first is empty and
there are others. -/
theorem keyList_eq_iff {keys : List String} (hkeys : keys.Nodup) :
    keyList keys = ", ".intercalate keys ↔ keys.head? ≠ some "" ∨ keys.length = 1 := by
  rw [keyList_eq_intercalate]
  cases keys with
  | nil => simp
  | cons key others =>
      by_cases hempty : key = ""
      · subst hempty
        have hothers : ", ".intercalate (("" :: others).dropWhile (· = "")) =
            ", ".intercalate others := by
          cases others with
          | nil => rfl
          | cons other others =>
              -- The keys are different, so the second one is not empty.
              have hne : other ≠ "" := by
                rintro rfl
                simp at hkeys
              simp [hne]
        rw [hothers]
        cases others with
        | nil => simp
        | cons other others =>
            rw [String.intercalate_cons_cons]
            simp only [List.head?_cons, ne_eq, not_true_eq_false, List.length_cons, false_or]
            refine iff_of_false (fun h => ?_) (by omega)
            have hlength := congrArg String.length h
            simp only [String.length_append] at hlength
            have hseparator : ", ".length = 2 := rfl
            omega
      · simp [hempty]

/-- A message shows the keys as a whole. -/
theorem message_cycle {keys : List String} (h : ∀ key ∈ keys, '\x00' ∉ key.toList) :
    (cycle keys).message =
      "internal error: declaration dependency cycle among: " ++ keyList keys := by
  have hnul : '\x00' ∉ (keyList keys).toList := by
    rw [keyList_eq_intercalate]
    intro hnul
    rcases mem_toList_intercalate hnul with hseparator | ⟨key, hkey, hc⟩
    · simp at hseparator
    · exact h key ((List.dropWhile_sublist _).subset hkey) hc
  exact congrArg ("internal error: declaration dependency cycle among: " ++ ·)
    (Text.untilNul_of_notMem hnul)

end OrderError

namespace Member

open Relation

variable {members : List Member}

theorem edge_eq_within (members : List Member) :
    Edge members = Within Entry.Precedes (entriesByPosition (classEntries members)) := by
  funext a b
  exact propext edge_iff_within_entriesByPosition

/-- With distinct keys and a circle among them, classes are stuck, and these make the error. -/
theorem exists_stuck_ordered (hkeys : DistinctKeys members)
    (hcircle : ∃ e, TransGen (Edge members) e e) :
    ∃ classes stuck : List Entry,
      Selection Entry.Precedes (entriesByPosition (classEntries members)) classes stuck ∧
        ordered members = .error (.cycle (stuck.map (·.1.key))) := by
  obtain ⟨classes, stuck, hsel, -, herror⟩ := exists_selection_ordered hkeys
  refine ⟨classes, stuck, hsel, herror fun hnil => ?_⟩
  obtain ⟨e, he⟩ := hcircle
  rw [edge_eq_within] at he
  exact hsel.stuck_eq_nil_iff.1 hnil e he

/-- When classes wait for each other in a circle, the error lists those that are on a circle or come
behind one, each once and as they were declared. In words these are their keys with commas between
them, unless the first key is empty and there are others. -/
theorem cycle_lists_circular (hkeys : DistinctKeys members)
    (hnul : ∀ m ∈ members, m.isTypeAlias = false → '\x00' ∉ m.key.toList)
    (hcircle : ∃ e, TransGen (Edge members) e e) :
    ∃ listed : List Entry,
      (∀ e, e ∈ listed ↔ ∃ c, TransGen (Edge members) c c ∧ ReflTransGen (Edge members) c e) ∧
      listed.Pairwise Entry.DeclaredBefore ∧
      ordered members = .error (.cycle (listed.map (·.1.key))) ∧
      ((OrderError.cycle (listed.map (·.1.key))).message =
          "internal error: declaration dependency cycle among: " ++
            ", ".intercalate (listed.map (·.1.key)) ↔
        (listed.map (·.1.key)).head? ≠ some "" ∨ listed.length = 1) := by
  obtain ⟨classes, stuck, hsel, hordered⟩ := exists_stuck_ordered hkeys hcircle
  have hsub := hsel.stuck_sublist
  refine ⟨stuck, fun e => ?_, ?_, hordered, ?_⟩
  · rw [edge_eq_within]
    exact hsel.mem_stuck_iff
  · exact (pairwise_entriesByPosition (classEntries_pairwise_lt members)).sublist hsub
  · have hnodup : (stuck.map (·.1.key)).Nodup := by
      refine (nodup_byPosition_iff.2 hkeys).sublist ?_
      rw [← map_fst_classEntries, List.map_map]
      exact hsub.map _
    have hplain : ∀ key ∈ stuck.map (·.1.key), '\x00' ∉ key.toList := by
      intro key hkey
      obtain ⟨e, he, rfl⟩ := List.mem_map.1 hkey
      obtain ⟨hmem, hclass⟩ :=
        mem_classEntries.1 ((entriesByPosition_perm _).mem_iff.1 (hsub.subset he))
      exact hnul e.1 (List.fst_mem_of_mem_zipIdx hmem) hclass
    rw [OrderError.message_cycle hplain, String.append_right_inj,
      OrderError.keyList_eq_iff hnodup, List.length_map]

/-- Two classes that are each other's superclass, one below them, one that is its own superclass and
the module class behind all of them. Beside them are a type alias and a class that waits for no
other. -/
def tangledMembers : List Member := [
  { name := "T", kind := .typeAlias, key := "m#T" },
  { name := "C", kind := .ordinaryClass, key := "m#C", superclass := some "m#A", position := 1 },
  { name := "A", kind := .ordinaryClass, key := "m#A", superclass := some "m#B", position := 2 },
  { name := "D", kind := .ordinaryClass, key := "m#D", superclass := some "n#D", position := 3 },
  { name := "B", kind := .ordinaryClass, key := "m#B", superclass := some "m#A", position := 4 },
  { name := "M", kind := .moduleClass, key := "m", position := 5 },
  { name := "S", kind := .ordinaryClass, key := "m#S", superclass := some "m#S", position := 6 }]

theorem cycle_lists_circular_tangledMembers :
    ∃ listed : List Entry,
      listed.map (·.1.key) = ["m#C", "m#A", "m#B", "m", "m#S"] ∧
      (∀ e, e ∈ listed ↔ ∃ c, TransGen (Edge tangledMembers) c c ∧
        ReflTransGen (Edge tangledMembers) c e) ∧
      ordered tangledMembers = .error (.cycle ["m#C", "m#A", "m#B", "m", "m#S"]) ∧
      (OrderError.cycle ["m#C", "m#A", "m#B", "m", "m#S"]).message =
        "internal error: declaration dependency cycle among: m#C, m#A, m#B, m, m#S" := by
  have hkeys : DistinctKeys tangledMembers := by unfold DistinctKeys; decide
  have hnul : ∀ m ∈ tangledMembers, m.isTypeAlias = false → '\x00' ∉ m.key.toList := by decide
  have hself : Edge tangledMembers (tangledMembers[6], 6) (tangledMembers[6], 6) :=
    ⟨by simp [tangledMembers, classEntries, isTypeAlias],
      by simp [tangledMembers, classEntries, isTypeAlias], Or.inl rfl⟩
  obtain ⟨listed, hlisted, -, hordered, hmessage⟩ :=
    cycle_lists_circular hkeys hnul ⟨_, .single hself⟩
  have hcycle : ordered tangledMembers =
      .error (.cycle ["m#C", "m#A", "m#B", "m", "m#S"]) := by
    rw [ordered_of_sorted (by simp [tangledMembers])]
    rfl
  have heq : listed.map (·.1.key) = ["m#C", "m#A", "m#B", "m", "m#S"] := by
    rw [hcycle] at hordered
    exact (OrderError.cycle.inj (Except.error.inj hordered)).symm
  rw [heq] at hmessage
  exact ⟨listed, heq, hlisted, hcycle, hmessage.2 (Or.inl (by simp))⟩

/-- Two classes that are their own superclasses; the first one has an empty key. -/
def namelessCircle : List Member := [
  { name := "X", kind := .ordinaryClass, key := "", superclass := some "" },
  { name := "A", kind := .ordinaryClass, key := "a", superclass := some "a", position := 1 }]

/-- The message shows one class, though both are on circles. -/
theorem message_namelessCircle :
    DistinctKeys namelessCircle ∧
    (∀ m ∈ namelessCircle, m.isTypeAlias = false ∧ '\x00' ∉ m.key.toList) ∧
    (∀ e ∈ classEntries namelessCircle, TransGen (Edge namelessCircle) e e) ∧
    ordered namelessCircle = .error (.cycle ["", "a"]) ∧
    (OrderError.cycle ["", "a"]).message =
      "internal error: declaration dependency cycle among: a" ∧
    "internal error: declaration dependency cycle among: a" ≠
      "internal error: declaration dependency cycle among: " ++ ", ".intercalate ["", "a"] := by
  refine ⟨by unfold DistinctKeys; decide, by decide, ?_, ?_, by rfl, by decide⟩
  · intro e he
    have hmem : e = (namelessCircle[0], 0) ∨ e = (namelessCircle[1], 1) := by
      simpa [classEntries, namelessCircle, isTypeAlias] using he
    refine .single ⟨he, he, Or.inl ?_⟩
    rcases hmem with rfl | rfl <;> rfl
  · rw [ordered_of_sorted (by simp [namelessCircle])]
    rfl

end Member

end PklBindings
