import PklBindings.Annotation
import PklBindings.Proofs.Results

/-!
# Why a type expression has no annotation

The places of a type expression are its nodes, each together with the node that it is a part of.
They are listed from the left, and a node stands before its parts (`PklType.places`). Four kinds of
places have no counterpart in Python, and the report about such a place is part of the definition
(`TypePlace.defect?`). An expression has an annotation unless it has a defective place, and the
error is then the report about the first one (`PklType.annotation_fails_at_first_defect`).
-/

namespace PklBindings

/-- A node of a type expression, and the node that it is a part of. -/
structure TypePlace where
  owner : PklType
  node : PklType

/-- The report about a place that has no annotation. A part that was left out cannot be shown, so
its owner is; the other defects are shown themselves. -/
def TypePlace.defect? (target : Target) (place : TypePlace) : Option UnsupportedType :=
  match place.node with
  | .missing => some ⟨place.owner.display, place.owner.location, .missingPart⟩
  | .unsupported l spelling => some ⟨spelling, l, .noCounterpart⟩
  | .union l [] => some ⟨(PklType.union l []).display, l, .emptyUnion⟩
  | .declared l ref =>
    match target.bindings.find? ref with
    | none => some ⟨ref, l, .unbound ref⟩
    | some _ => none
  | _ => none

namespace PklType

/-- The parts of an expression, from left to right. -/
def children : PklType → List PklType
  | missing | primitive .. | declared .. | literal .. | unsupported .. => []
  | nullable _ inner => [inner]
  | union _ members => members
  | generic _ base arguments => base :: arguments
  | function _ parameters result => parameters ++ [result]

theorem sizeOf_lt_of_mem_children {e part : PklType} (h : part ∈ e.children) :
    sizeOf part < sizeOf e := by
  cases e with
  | missing | primitive _ _ | declared _ _ | literal _ _ | unsupported _ _ =>
      simp [children] at h
  | nullable l inner =>
      rw [children, List.mem_singleton] at h
      rw [h, nullable.sizeOf_spec]
      omega
  | union l members =>
      rw [children] at h
      have hlt := List.sizeOf_lt_of_mem h
      rw [union.sizeOf_spec]
      omega
  | generic l base arguments =>
      rw [generic.sizeOf_spec]
      rcases List.mem_cons.1 h with rfl | h
      · omega
      · have hlt := List.sizeOf_lt_of_mem h
        omega
  | function l parameters result =>
      rw [function.sizeOf_spec]
      rcases List.mem_append.1 h with h | h
      · have hlt := List.sizeOf_lt_of_mem h
        omega
      · rw [List.mem_singleton.1 h]
        omega

/-- The places of an expression that is a part of `owner`: its own first, then those of its parts
from left to right. An expression that stands by itself is its own owner. -/
def places (owner e : PklType) : List TypePlace :=
  ⟨owner, e⟩ :: e.children.attach.flatMap fun part => places e part.1
termination_by sizeOf e
decreasing_by exact sizeOf_lt_of_mem_children part.2

theorem places_eq (owner e : PklType) :
    places owner e = ⟨owner, e⟩ :: e.children.flatMap (places e) := by
  rw [places, List.flatMap_subtype (fun _ _ => rfl), List.unattach_attach]

/-! ## The first defect -/

section FirstDefect

variable {target : Target} {owner : PklType}

/-- Behind a place without a defect, the first defect is looked for in the parts. -/
theorem findSome?_places {e : PklType} (h : TypePlace.defect? target ⟨owner, e⟩ = none) :
    (places owner e).findSome? (TypePlace.defect? target) =
      (e.children.flatMap (places e)).findSome? (TypePlace.defect? target) := by
  rw [places_eq, List.findSome?_cons, h]

-- The cases are those of `annotate`, which stops at the first part without an annotation.
mutual

/-- The error of an annotation is the report about the first defective place. -/
theorem errorOf?_annotate : ∀ owner e : PklType,
    errorOf? (annotate target owner e) =
      (places owner e).findSome? (TypePlace.defect? target)
  | owner, missing => by
      rw [places_eq]
      rfl
  | owner, unsupported l spelling => by
      rw [places_eq]
      rfl
  | owner, primitive l type => by
      rw [findSome?_places rfl]
      rfl
  | owner, literal l value => by
      rw [findSome?_places rfl]
      rfl
  | owner, declared l ref => by
      rw [places_eq]
      cases hfind : target.bindings.find? ref with
      | none =>
          rw [annotate, hfind]
          simp [TypePlace.defect?, hfind, UnsupportedType.of, display, location, errorOf?]
      | some b => simp [annotate, TypePlace.defect?, hfind, children, errorOf?]
  | owner, nullable l inner => by
      rw [findSome?_places rfl, annotate, errorOf?_bind_pure, errorOf?_annotate]
      simp [children]
  | owner, union l [] => by
      rw [places_eq]
      rfl
  | owner, union l (e :: es) => by
      rw [findSome?_places rfl, annotate, errorOf?_bind_bind_pure,
        errorOf?_annotate, errorOf?_annotateAll]
      simp [children]
  | owner, generic l base arguments => by
      rw [findSome?_places rfl, annotate, errorOf?_bind_bind_pure,
        errorOf?_annotate, errorOf?_annotateAll]
      simp [children]
  | owner, function l parameters result => by
      rw [findSome?_places rfl, annotate, errorOf?_bind_bind_pure,
        errorOf?_annotate, errorOf?_annotateAll]
      simp [children]

theorem errorOf?_annotateAll : ∀ (owner : PklType) (es : List PklType),
    errorOf? (annotateAll target owner es) =
      (es.flatMap (places owner)).findSome? (TypePlace.defect? target)
  | owner, [] => rfl
  | owner, e :: es => by
      rw [annotateAll, errorOf?_bind_bind_pure, errorOf?_annotate,
        errorOf?_annotateAll]
      simp

end

end FirstDefect

/-- The annotation of an expression fails exactly when one of its places is defective, and the error
is then the report about the first of these, from the left and a node before its parts. -/
theorem annotation_fails_at_first_defect (e : PklType) (target : Target) :
    ((∃ report, e.annotation target = .error report) ↔
      ∃ place ∈ places e e, ∃ report, place.defect? target = some report) ∧
    ∀ report, e.annotation target = .error report ↔
      ∃ before place after, places e e = before ++ place :: after ∧
        (∀ earlier ∈ before, earlier.defect? target = none) ∧
        place.defect? target = some report := by
  have hfirst : ∀ report, e.annotation target = .error report ↔
      (places e e).findSome? (TypePlace.defect? target) = some report := by
    intro report
    rw [← errorOf?_annotate, errorOf?_eq_some_iff]
    rfl
  constructor
  · simp only [hfirst, ← Option.isSome_iff_exists, List.findSome?_isSome_iff]
  · intro report
    rw [hfirst, List.findSome?_eq_some_iff]
    constructor
    · rintro ⟨before, place, after, hplaces, hplace, hbefore⟩
      exact ⟨before, place, after, hplaces, hbefore, hplace⟩
    · rintro ⟨before, place, after, hplaces, hbefore, hplace⟩
      exact ⟨before, place, after, hplaces, hplace, hbefore⟩

/-- The first of two defects is reported, and for the part that was left out its owner. -/
example : PklType.annotation (function {} [.nullable {} .missing, .unsupported {} "Foo"] .missing)
    ⟨"m", {}, "    ", "pkl"⟩ = .error ⟨"<null>?", {}, .missingPart⟩ := by
  decide

end PklType

end PklBindings
