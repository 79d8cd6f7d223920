import PklBindings.Proofs.AnnotationDefects
import PklBindings.Proofs.FirstOccurrences
import PklBindings.Proofs.OpenLines

/-!
# Imports and the names that need them

An annotation is text with the names of declarations in it, and a name of another namespace stands
behind the module that it is imported from (`AnnotationPart.Written`). These modules are those of
the foreign namespaces that are collected from the expression, and a member imports the modules
that its text names and no others, each once (`Target.imports_exactly_used`).
-/

namespace PklBindings

/-- The declaration that a place refers to. -/
def TypePlace.reference? (place : TypePlace) : Option String :=
  match place.node with
  | .declared _ ref => some ref
  | _ => none

/-- The bindings into other namespaces among those of the references, in order and as often as they
are referred to. -/
def Target.foreignBindings (target : Target) (refs : List String) : List Binding :=
  (refs.filterMap target.bindings.find?).filter (·.space ≠ target.space)

/-- A bound reference leads to another namespace or counts for nothing. -/
theorem Target.foreignBindings_cons (target : Target) {ref : String} {refs : List String}
    {b : Binding} (hfind : target.bindings.find? ref = some b) :
    target.foreignBindings (ref :: refs) =
      if b.space = target.space then target.foreignBindings refs
      else b :: target.foreignBindings refs := by
  rw [foreignBindings, List.filterMap_cons_some hfind]
  by_cases hspace : b.space = target.space
  · rw [List.filter_cons_of_neg (by simp [hspace]), if_pos hspace]
    rfl
  · rw [List.filter_cons_of_pos (by simp [hspace]), if_neg hspace]
    rfl

namespace PklType

/-- The declarations that the places of an expression refer to, in the order of the places. -/
def placedReferences (e : PklType) : List String :=
  (places e e).filterMap TypePlace.reference?

/-! ## The references of an expression are those of its places -/

theorem filterMap_reference?_places {owner e : PklType}
    (h : TypePlace.reference? ⟨owner, e⟩ = none) :
    (places owner e).filterMap TypePlace.reference? =
      (e.children.flatMap (places e)).filterMap TypePlace.reference? := by
  rw [places_eq, List.filterMap_cons_none h]

mutual

theorem references_eq_filterMap : ∀ owner e : PklType,
    references e = (places owner e).filterMap TypePlace.reference?
  | owner, missing | owner, unsupported _ _ | owner, primitive _ _ | owner, literal _ _ => by
      rw [filterMap_reference?_places rfl]
      rfl
  | owner, declared l ref => by
      rw [places_eq]
      rfl
  | owner, nullable l inner => by
      rw [filterMap_reference?_places rfl, references, references_eq_filterMap (nullable l inner)]
      simp [children]
  | owner, union l members => by
      rw [filterMap_reference?_places rfl, references,
        referencesAll_eq_filterMap (union l members)]
      rfl
  | owner, generic l base arguments => by
      rw [filterMap_reference?_places rfl, references,
        references_eq_filterMap (generic l base arguments),
        referencesAll_eq_filterMap (generic l base arguments)]
      simp [children]
  | owner, function l parameters result => by
      rw [filterMap_reference?_places rfl, references,
        references_eq_filterMap (function l parameters result),
        referencesAll_eq_filterMap (function l parameters result)]
      simp [children]

theorem referencesAll_eq_filterMap : ∀ (owner : PklType) (es : List PklType),
    referencesAll es = (es.flatMap (places owner)).filterMap TypePlace.reference?
  | owner, [] => rfl
  | owner, e :: es => by
      rw [referencesAll, references_eq_filterMap owner, referencesAll_eq_filterMap owner,
        List.flatMap_cons, List.filterMap_append]

end

/-- The foreign namespaces of an expression are those that its places refer to, each once, in the
order in which they are referred to first. -/
theorem firstOccurrences_foreignSpaces (e : PklType) (target : Target) :
    FirstOccurrences ((target.foreignBindings e.placedReferences).map (·.space))
      (e.foreignSpaces target) := by
  rw [placedReferences, ← references_eq_filterMap]
  exact firstOccurrences_eraseDups _

end PklType

/-! ## Modules in front of names -/

namespace AnnotationPart

/-- How parts are written in a namespace, and the modules that are written in front of names, in
order: a name of the namespace stands alone, and any other behind its module. -/
inductive Written (target : Target) : List AnnotationPart → String → List String → Prop where
  | nil : Written target [] "" []
  | text {s rest : String} {parts : List AnnotationPart} {modules : List String}
    (h : Written target parts rest modules) : Written target (.text s :: parts) (s ++ rest) modules
  | bare {ref rest : String} {b : Binding} {parts : List AnnotationPart} {modules : List String}
    (hfind : target.bindings.find? ref = some b) (hspace : b.space = target.space)
    (h : Written target parts rest modules) :
    Written target (.reference ref :: parts) (b.name ++ rest) modules
  | qualified {ref rest : String} {b : Binding} {parts : List AnnotationPart}
    {modules : List String} (hfind : target.bindings.find? ref = some b)
    (hspace : b.space ≠ target.space) (h : Written target parts rest modules) :
    Written target (.reference ref :: parts) (target.importName b.space ++ "." ++ b.name ++ rest)
      (target.importName b.space :: modules)

variable {target : Target} {parts : List AnnotationPart}

/-- Parts whose references are bound are written as they are spelt, with the modules of the foreign
ones. -/
theorem written_of_bound (h : ∀ ref ∈ refs parts, (target.bindings.find? ref).isSome = true) :
    Written target parts (spellAll target parts)
      ((target.foreignBindings (refs parts)).map (target.importName ·.space)) := by
  induction parts with
  | nil => exact .nil
  | cons part parts ih =>
      cases part with
      | text s =>
          rw [spellAll_cons]
          exact .text (ih h)
      | reference ref =>
          rw [refs, List.forall_mem_cons] at h
          obtain ⟨hbound, hrest⟩ := h
          obtain ⟨b, hfind⟩ := Option.isSome_iff_exists.1 hbound
          have hspelling : (reference ref).spelling target = target.spelling b := by
            simp [spelling, hfind]
          rw [spellAll_cons, hspelling, Target.spelling, refs]
          by_cases hspace : b.space = target.space
          · rw [if_neg (by simp [Target.isForeign, hspace]), target.foreignBindings_cons hfind,
              if_pos hspace]
            exact .bare hfind hspace (ih hrest)
          · rw [if_pos (by simp [Target.isForeign, hspace]), target.foreignBindings_cons hfind,
              if_neg hspace]
            exact .qualified hfind hspace (ih hrest)

/-- Parts are written with one list of modules only. -/
theorem Written.modules_eq {text : String} {modules : List String}
    (h : Written target parts text modules) :
    modules = (target.foreignBindings (refs parts)).map (target.importName ·.space) := by
  induction h with
  | nil => rfl
  | text _ ih => exact ih
  | bare hfind hspace _ ih => rw [refs, target.foreignBindings_cons hfind, if_pos hspace, ih]
  | qualified hfind hspace _ ih =>
      rw [refs, target.foreignBindings_cons hfind, if_neg hspace, ih, List.map_cons]

end AnnotationPart

/-! ## What a member imports -/

/-- A member shows a line, and writes these modules in front of the names on it. -/
def Member.Writes (m : Member) (target : Target) (line : OpenLine) (modules : List String) : Prop :=
  ∃ text, BlockLine.atLevel line.level text ∈ Document.bodyLines m ∧
    AnnotationPart.Written target line.parts text modules

/-- A member imports `spaces`, each line once and in their order, and these are the modules that are
written in front of names on its lines. -/
structure Member.ImportsUsed (m : Member) (target : Target) (lines : List OpenLine)
    (spaces : List String) : Prop where
  units : FirstOccurrences (spaces.map target.importLine) m.units
  /-- No import is missing. -/
  imported : ∀ line ∈ lines, ∃ modules, m.Writes target line modules ∧
    ∀ name ∈ modules, "import " ++ name ∈ m.units
  /-- No import is unused. -/
  used : ∀ unit ∈ m.units, ∃ line ∈ lines, ∃ modules, m.Writes target line modules ∧
    ∃ name ∈ modules, unit = "import " ++ name

/-- The fields of a class are those of the properties, in order. -/
theorem DataField.map_property_of_ofProperties {key : String} {target : Target}
    {ps : List Property} {earlier fields : List DataField}
    (h : ofProperties key target earlier ps = .ok fields) : fields.map (·.property) = ps := by
  have hshows := shows_of_ofProperties h
  clear h
  induction hshows with
  | nil => rfl
  | cons hfield _ ih => rw [List.map_cons, hfield.property_eq, ih]

namespace Member

open AnnotationPart

variable {target : Target} {m : Member} {d : Declaration} {position : Nat}

theorem Closes.writes {line : OpenLine} (h : m.Closes target line) :
    m.Writes target line
      ((target.foreignBindings (refs line.parts)).map (target.importName ·.space)) := by
  refine ⟨_, h.shown, written_of_bound fun ref href => ?_⟩
  obtain ⟨b, hfind, -⟩ := h.provided ref href
  rw [hfind]
  rfl

/-- A member that imports the foreign namespaces behind the references of its lines imports what is
used. -/
theorem importsUsed_of_closes {lines : List OpenLine} {spaces : List String}
    (hlines : ∀ line ∈ lines, m.Closes target line) (hunits : m.units = target.importLines spaces)
    (hspaces : ∀ space, space ∈ spaces ↔
      ∃ line ∈ lines, ∃ b ∈ target.foreignBindings (refs line.parts), b.space = space) :
    m.ImportsUsed target lines spaces := by
  refine ⟨?_, ?_, ?_⟩
  · rw [hunits]
    exact firstOccurrences_eraseDups _
  · intro line hline
    refine ⟨_, (hlines line hline).writes, fun name hname => ?_⟩
    obtain ⟨b, hb, rfl⟩ := List.mem_map.1 hname
    rw [hunits]
    exact Target.importLine_mem_importLines ((hspaces _).2 ⟨line, hline, b, hb, rfl⟩)
  · intro unit hunit
    rw [hunits, Target.importLines, List.mem_eraseDups] at hunit
    obtain ⟨space, hspace, rfl⟩ := List.mem_map.1 hunit
    obtain ⟨line, hline, b, hb, rfl⟩ := (hspaces _).1 hspace
    exact ⟨line, hline, _, (hlines line hline).writes, _, List.mem_map_of_mem hb, rfl⟩

/-- A namespace is collected from an expression when one of its references leads there. -/
theorem mem_foreignSpaces_iff {e : PklType} {space : String} :
    space ∈ e.foreignSpaces target ↔
      ∃ b ∈ target.foreignBindings (refs e.parts), b.space = space := by
  rw [PklType.refs_parts, PklType.foreignSpaces, Target.foreignSpaces, List.mem_eraseDups]
  exact List.mem_map

theorem AliasText.importsUsed (h : AliasText d target m) :
    m.ImportsUsed target [⟨0, .text (m.name ++ " = ") :: d.aliasedType.parts⟩]
      (d.aliasedType.foreignSpaces target) := by
  refine importsUsed_of_closes (List.forall_mem_singleton.2 h.closes) h.units_eq fun space => ?_
  rw [mem_foreignSpaces_iff]
  simp [refs]

/-- The superclass of a class is imported if it is bound in another namespace. -/
theorem superclassSpaces_eq {superclass : Option Binding}
    (h : superclassBinding d target = .ok superclass) :
    superclassSpaces target superclass =
      (target.foreignBindings d.superclass.toList).map (·.space) := by
  rcases superclassBinding_eq_ok_iff.1 h with ⟨hnone, rfl⟩ | ⟨ref, b, href, rfl, hfind⟩
  · rw [hnone]
    rfl
  · rw [href, Option.toList_some, target.foreignBindings_cons hfind, superclassSpaces]
    by_cases hspace : b.space = target.space
    · simp [Target.isForeign, hspace, Target.foreignBindings]
    · simp [Target.isForeign, hspace, Target.foreignBindings]

theorem ClassText.importsUsed {superclass : Option Binding} {fields : List DataField}
    (h : ClassText d target superclass fields m) :
    m.ImportsUsed target (d.openHeader m.name :: d.visibleProperties.map Declaration.openField)
      ((target.foreignBindings d.superclass.toList).map (·.space) ++
        d.visibleProperties.flatMap (·.type.foreignSpaces target)) := by
  have hfields : fields.flatMap (fun field => field.property.type.foreignSpaces target) =
      d.visibleProperties.flatMap (·.type.foreignSpaces target) := by
    rw [← DataField.map_property_of_ofProperties h.fields_eq, List.flatMap_map]
  refine importsUsed_of_closes h.closes ?_ fun space => ?_
  · rw [h.units_eq, superclassSpaces_eq h.superclass_eq, hfields]
  · simp only [List.mem_append, List.mem_map, List.mem_flatMap, mem_foreignSpaces_iff,
      List.mem_cons, exists_eq_or_imp, Declaration.refs_openHeader, exists_exists_and_eq_and]
    rfl

end Member

/-! ## Imports and uses -/

namespace Target

/-- From an expression the namespaces are collected that its places refer to outside the target,
each once and in order, and their modules are those in front of names in its annotation. A type
alias imports the modules of its aliased type, and a class that of its superclass and those of the
types of its visible properties, each line once, and the names on their lines use all of them. -/
theorem imports_exactly_used (target : Target) :
    (∀ e : PklType,
      FirstOccurrences ((target.foreignBindings e.placedReferences).map (·.space))
          (e.foreignSpaces target) ∧
        ∀ s, e.annotation target = .ok s →
          (∃ modules, AnnotationPart.Written target e.parts s modules) ∧
          ∀ modules, AnnotationPart.Written target e.parts s modules →
            ∀ name, name ∈ modules ↔ name ∈ (e.foreignSpaces target).map target.importName) ∧
    (∀ d position m, Member.ofTypeAlias d position target = .ok m →
      m.ImportsUsed target [⟨0, .text (m.name ++ " = ") :: d.aliasedType.parts⟩]
        (d.aliasedType.foreignSpaces target)) ∧
    ∀ d position m, Member.ofClass d position target = .ok m →
      m.ImportsUsed target (d.openHeader m.name :: d.visibleProperties.map Declaration.openField)
        ((target.foreignBindings d.superclass.toList).map (·.space) ++
          d.visibleProperties.flatMap (·.type.foreignSpaces target)) := by
  refine ⟨fun e => ⟨e.firstOccurrences_foreignSpaces target, fun s hs => ?_⟩, ?_, ?_⟩
  · obtain ⟨rfl, hbound⟩ := PklType.annotate_eq_ok hs
    rw [← PklType.refs_parts] at hbound
    refine ⟨⟨_, AnnotationPart.written_of_bound hbound⟩, fun modules hwritten name => ?_⟩
    rw [hwritten.modules_eq]
    simp only [List.mem_map, Member.mem_foreignSpaces_iff, exists_exists_and_eq_and]
  · intro d position m h
    exact (Member.ofTypeAlias_eq_ok h).2.importsUsed
  · intro d position m h
    obtain ⟨-, superclass, fields, htext⟩ := Member.ofClass_eq_ok h
    exact htext.importsUsed

/-- A namespace `m` besides `a.b` and `a_b`, which are imported by one name. -/
def besideTwins : Target where
  space := "m"
  bindings := ⟨[
    { kind := .ordinaryClass, source := "m#C", space := "m", name := "C" },
    { kind := .ordinaryClass, source := "a.b#B", space := "a.b", name := "B" },
    { kind := .ordinaryClass, source := "a_b#D", space := "a_b", name := "D" }]⟩

/-- A class of `m` that refers to all three namespaces. -/
def twinUser : Declaration where
  kind := .ordinaryClass
  name := "C"
  moduleName := "m"
  superclass := some "a.b#B"
  properties := [
    { name := "next", type := .nullable {} (.declared {} "m#C") },
    { name := "all", type := .generic {} (.primitive {} .list) [.declared {} "a_b#D"] }]

/-- Two namespaces with one module are imported by one line. -/
theorem imports_exactly_used_twinUser : ∃ m,
    Member.ofClass twinUser 0 besideTwins = .ok m ∧ m.units = ["import a_b_pkl"] ∧
      m.ImportsUsed besideTwins
        (twinUser.openHeader m.name :: twinUser.visibleProperties.map Declaration.openField)
        ["a.b", "a_b"] :=
  ⟨_, rfl, rfl, (imports_exactly_used besideTwins).2.2 twinUser 0 _ rfl⟩

end Target

end PklBindings
