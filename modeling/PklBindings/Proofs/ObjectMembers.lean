import PklBindings.Json.Basic

/-!
# Members of objects

What is found under a name, in objects that are put together of parts. An object may be put over
another one (`Members.Overridden`): its members are kept, and those of the other object are kept
under the names that it does not have.
-/

namespace PklBindings.Json

/-- A member that is left out when it has no value. -/
def optionalMember (name : String) (value : Option Json) : Json.Members :=
  value.toList.map fun json => (name, json)

theorem eq_object_of_members? {json : Json} {members : Members} (h : json.members? = some members) :
    json = .object members := by
  cases json with
  | object _ =>
      cases h
      rfl
  | null | bool _ | number _ | string _ | array _ => cases h

@[simp] theorem get?_nil (name : String) : Members.get? [] name = none := rfl

@[simp] theorem get?_cons (key : String) (value : Json) (members : Members) (name : String) :
    Members.get? ((key, value) :: members) name =
      if name = key then some value else members.get? name := by
  by_cases heq : name = key
  · simp [Members.get?, heq]
  · simp [Members.get?, List.lookup_cons, heq, beq_false_of_ne heq]

@[simp] theorem get?_append (members others : Members) (name : String) :
    Members.get? (members ++ others) name = (members.get? name).or (others.get? name) :=
  List.lookup_append

@[simp] theorem get?_optionalMember (key : String) (value : Option Json) (name : String) :
    (optionalMember key value).get? name = if name = key then value else none := by
  cases value with
  | none => simp [optionalMember]
  | some json => simp [optionalMember]

namespace Members

theorem mem_names_iff {members : Members} {name : String} :
    name ∈ members.map (·.1) ↔ members.get? name ≠ none := by
  rw [get?, ne_eq, List.lookup_eq_none_iff]
  simp

theorem get?_filter (members : Members) (keep : String → Bool) (name : String) :
    get? (members.filter fun m => keep m.1) name =
      if keep name then members.get? name else none := by
  induction members with
  | nil => simp
  | cons first members ih =>
      obtain ⟨key, json⟩ := first
      cases hkeep : keep key with
      | false =>
          rw [List.filter_cons_of_neg (by simp [hkeep]), ih, get?_cons]
          by_cases hname : name = key
          · simp [hname, hkeep]
          · rw [if_neg hname]
      | true =>
          rw [List.filter_cons_of_pos (by simp [hkeep]), get?_cons, get?_cons, ih]
          by_cases hname : name = key
          · simp [hname, hkeep]
          · rw [if_neg hname, if_neg hname]

/-- The members of an object are those of `upper` and, under other names, those of `members`. The
names of members are distinct. -/
structure Overridden (upper members merged : Members) : Prop where
  nodup : (members.map (·.1)).Nodup
  nodup_merged : (merged.map (·.1)).Nodup
  get?_eq : ∀ name, merged.get? name = (upper.get? name).or (members.get? name)

/-- Any object can be put over any other. -/
theorem overridden_append {upper members : Members} (hupper : (upper.map (·.1)).Nodup)
    (hmembers : (members.map (·.1)).Nodup) :
    Overridden upper members (upper ++ members.filter fun m => (upper.get? m.1).isNone) where
  nodup := hmembers
  nodup_merged := by
    rw [List.map_append, List.nodup_append]
    refine ⟨hupper, hmembers.sublist (List.filter_sublist.map _), ?_⟩
    rintro name hname _ hrest rfl
    obtain ⟨m, hm, rfl⟩ := List.mem_map.1 hrest
    exact mem_names_iff.1 hname (Option.isNone_iff_eq_none.1 (List.mem_filter.1 hm).2)
  get?_eq name := by
    rw [get?_append, get?_filter members fun key => (upper.get? key).isNone]
    cases upper.get? name <;> rfl

end Members

end PklBindings.Json
