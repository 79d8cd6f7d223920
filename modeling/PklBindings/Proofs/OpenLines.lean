import PklBindings.Proofs.AnnotationParts
import PklBindings.Proofs.DocumentLines
import PklBindings.Proofs.Members

/-!
# Lines with open references

The lines of generated code that refer to other declarations are laid down before the namespace is
known, with the references left open (`Declaration.openLines`). They hold all that a declaration
refers to (`refs_openLines`), and the member of the declaration shows them with the references
spelt in its namespace, each of them bound and the foreign ones imported
(`Member.closes_of_ofDeclaration`). Nothing else is imported, but for what enumerations are made of
(`Member.needed_of_ofDeclaration`).
-/

namespace PklBindings

open AnnotationPart

/-- A line of generated code whose references are not spelt yet. -/
structure OpenLine where
  level : UInt32
  parts : List AnnotationPart
  deriving DecidableEq, Repr

/-- The line with its references spelt in a namespace. -/
def OpenLine.close (line : OpenLine) (target : Target) : BlockLine :=
  .atLevel line.level (spellAll target line.parts)

namespace Declaration

/-- The header of a class of the Python name `name`. -/
def openHeader (d : Declaration) (name : String) : OpenLine :=
  let clause :=
    match d.superclass with
    | none => []
    | some ref => [.text "(", .reference ref, .text ")"]
  ⟨0, .text ("class " ++ name) :: clause ++ [.text ":"]⟩

/-- The field of a property. -/
def openField (p : Property) : OpenLine :=
  ⟨1, .text (Identifier.ofText p.name ++ ": ") :: p.type.parts⟩

/-- The lines of a declaration of the Python name `name` that may refer to other declarations. -/
def openLines (d : Declaration) (name : String) : List OpenLine :=
  match d.kind with
  | .moduleClass | .ordinaryClass => d.openHeader name :: d.visibleProperties.map openField
  | .enumeration => []
  | .typeAlias => [⟨0, .text (name ++ " = ") :: d.aliasedType.parts⟩]

/-- What the generated code of a declaration refers to: the superclass of a class and the types of
its visible properties, and the aliased type of a type alias. -/
def emittedReferences (d : Declaration) : List String :=
  match d.kind with
  | .moduleClass | .ordinaryClass =>
    d.superclass.toList ++ d.visibleProperties.flatMap (·.type.references)
  | .enumeration => []
  | .typeAlias => d.aliasedType.references

theorem refs_openHeader (d : Declaration) (name : String) :
    refs (d.openHeader name).parts = d.superclass.toList := by
  cases hsuperclass : d.superclass <;> simp [openHeader, hsuperclass, refs]

/-- The open lines refer to all that the generated code refers to, and to nothing else. -/
theorem refs_openLines (d : Declaration) (name : String) :
    (d.openLines name).flatMap (refs ·.parts) = d.emittedReferences := by
  cases hkind : d.kind with
  | enumeration => simp [openLines, emittedReferences, hkind]
  | typeAlias => simp [openLines, emittedReferences, hkind, refs, PklType.refs_parts]
  | moduleClass =>
      simp [openLines, emittedReferences, hkind, refs_openHeader, List.flatMap_map, openField, refs,
        PklType.refs_parts]
  | ordinaryClass =>
      simp [openLines, emittedReferences, hkind, refs_openHeader, List.flatMap_map, openField, refs,
        PklType.refs_parts]

end Declaration

/-! ## Closing the lines -/

/-- A reference that the text of a member may use: it is bound, and unless it is bound in the
namespace being written, the units of the member import its namespace. -/
def Target.Provides (target : Target) (units : List String) (ref : String) : Prop :=
  ∃ b, target.bindings.find? ref = some b ∧
    (target.isForeign b = true → target.importLine b.space ∈ units)

/-- A member shows a line with its references spelt, and provides for them. -/
structure Member.Closes (m : Member) (target : Target) (line : OpenLine) : Prop where
  shown : line.close target ∈ Document.bodyLines m
  provided : ∀ ref ∈ refs line.parts, target.Provides m.units ref

variable {target : Target} {m : Member}

theorem Target.importLine_mem_importLines {spaces : List String} {space : String}
    (h : space ∈ spaces) : target.importLine space ∈ target.importLines spaces := by
  rw [Target.importLines, List.mem_eraseDups]
  exact List.mem_map_of_mem h

theorem PklType.provides_of_annotation {e : PklType} {s : String} {units : List String}
    (h : e.annotation target = .ok s)
    (hunits : ∀ space ∈ e.foreignSpaces target, target.importLine space ∈ units) :
    ∀ ref ∈ e.references, target.Provides units ref := by
  intro ref href
  obtain ⟨b, hb⟩ := Option.isSome_iff_exists.1 ((annotate_eq_ok h).2 ref href)
  refine ⟨b, hb, fun hforeign => hunits _ ?_⟩
  -- The foreign namespaces of an expression are those behind its references.
  rw [PklType.foreignSpaces, Target.foreignSpaces, List.mem_eraseDups]
  apply List.mem_map_of_mem
  rw [List.mem_filter, List.mem_filterMap]
  exact ⟨⟨ref, href, hb⟩, hforeign⟩

namespace Member

theorem atLevel_mem_bodyLines {block : Block} (hbody : m.body = block) {level : UInt32}
    {text : String} (hline : BlockLine.atLevel level text ∈ block.lines.toList) :
    BlockLine.atLevel level text ∈ Document.bodyLines m := by
  rw [Document.bodyLines, hbody, ← BlockLine.shift_zero_atLevel]
  exact List.mem_map_of_mem hline

theorem AliasText.closes {d : Declaration} (h : AliasText d target m) :
    Closes m target ⟨0, .text (m.name ++ " = ") :: d.aliasedType.parts⟩ := by
  obtain ⟨⟨s, comments, hs, hbody⟩, hunits⟩ := h
  constructor
  · apply atLevel_mem_bodyLines hbody
    rw [Block.lines_addLines, spellAll_cons, spelling_text, ← (PklType.annotate_eq_ok hs).1]
    simp [Block.empty]
  · intro ref href
    rw [refs, PklType.refs_parts] at href
    refine PklType.provides_of_annotation hs (fun space hspace => ?_) ref href
    rw [hunits]
    exact Target.importLine_mem_importLines hspace

/-- The parts of a class that stand on its header show its superclass. -/
theorem spellAll_openHeader {d : Declaration} {superclass : Option Binding}
    (h : superclassBinding d target = .ok superclass) (name : String) :
    spellAll target (d.openHeader name).parts =
      "class " ++ name ++ superclassClause target superclass ++ ":" := by
  rcases superclassBinding_eq_ok_iff.1 h with ⟨hnone, rfl⟩ | ⟨ref, b, href, rfl, hb⟩
  · simp [Declaration.openHeader, hnone, superclassClause]
  · simp [Declaration.openHeader, href, superclassClause, spelling, hb, String.append_assoc]

section Class

variable {d : Declaration} {superclass : Option Binding} {fields : List DataField}

theorem ClassText.closes_header (h : ClassText d target superclass fields m) :
    Closes m target (d.openHeader m.name) := by
  constructor
  · apply atLevel_mem_bodyLines h.body_eq
    rw [spellAll_openHeader h.superclass_eq, Block.lines_dedent, Block.lines_addLines,
      Block.lines_indent, Block.lines_addLines]
    simp [Block.empty, Declaration.openHeader]
  · intro ref href
    rw [Declaration.refs_openHeader] at href
    rcases superclassBinding_eq_ok_iff.1 h.superclass_eq with ⟨hnone, -⟩ | ⟨ref', b, href', rfl, hb⟩
    · simp [hnone] at href
    · -- A foreign superclass is the first of the namespaces that the class imports.
      obtain rfl : ref = ref' := by simpa [href'] using href
      refine ⟨b, hb, fun hforeign => ?_⟩
      rw [h.units_eq]
      apply Target.importLine_mem_importLines
      simp [superclassSpaces, hforeign]

theorem ClassText.closes_field (h : ClassText d target superclass fields m) {p : Property}
    (hp : p ∈ d.visibleProperties) : Closes m target (Declaration.openField p) := by
  obtain ⟨field, hmem, hshows⟩ :=
    exists_mem_zip_of_mem_left (DataField.shows_of_ofProperties h.fields_eq) hp
  have hfield : field ∈ fields := (List.of_mem_zip hmem).2
  constructor
  · apply atLevel_mem_bodyLines h.body_eq
    -- The field ends with its line, after the documentation of the property.
    have hline : field.name ++ ": " ++ field.annotation ∈
        dataclassLines d.qualifiedName d.doc fields := by
      simp only [dataclassLines, List.mem_append, List.mem_flatMap]
      exact Or.inl (Or.inl (Or.inr ⟨field, hfield, by simp [DataField.lines]⟩))
    have hspelt : spellAll target (Declaration.openField p).parts =
        field.name ++ ": " ++ field.annotation := by
      rw [(PklType.annotate_eq_ok hshows.annotation_eq).1, hshows.name_eq]
      simp [Declaration.openField]
    rw [hspelt, Block.lines_dedent, Block.lines_addLines]
    apply List.mem_append_right
    exact List.mem_map_of_mem hline
  · intro ref href
    rw [Declaration.openField, refs, PklType.refs_parts] at href
    refine PklType.provides_of_annotation hshows.annotation_eq (fun space hspace => ?_) ref href
    rw [h.units_eq]
    apply Target.importLine_mem_importLines
    -- The namespaces of the fields are imported after that of the superclass.
    rw [List.mem_append, List.mem_flatMap]
    exact Or.inr ⟨field, hfield, by rwa [hshows.property_eq]⟩

theorem ClassText.closes (h : ClassText d target superclass fields m) :
    ∀ line ∈ d.openHeader m.name :: d.visibleProperties.map Declaration.openField,
      Closes m target line := by
  intro line hline
  rcases List.mem_cons.1 hline with rfl | hline
  · exact h.closes_header
  · obtain ⟨p, hp, rfl⟩ := List.mem_map.1 hline
    exact h.closes_field hp

end Class

/-- The member of a declaration shows all of its open lines. -/
theorem closes_of_ofDeclaration {d : Declaration} {position : Nat}
    (h : ofDeclaration d position target = .ok m) :
    ∀ line ∈ d.openLines m.name, Closes m target line := by
  cases (ofDeclaration_eq_ok h).2 with
  | typeAlias hkind htext => simpa [Declaration.openLines, hkind] using htext.closes
  | enumeration hkind _ => simp [Declaration.openLines, hkind]
  | dataclass hkind htext =>
      rcases hkind with hkind | hkind
      · simpa only [Declaration.openLines, hkind] using htext.closes
      · simpa only [Declaration.openLines, hkind] using htext.closes

end Member

/-! ## What is imported -/

/-- A unit that a namespace may need: what enumerations are made of, or the import of a namespace
that a declaration is bound in. -/
def Target.Needed (target : Target) (unit : String) : Prop :=
  unit = "from enum import Enum" ∨
    ∃ ref b, target.bindings.find? ref = some b ∧ unit = target.importLine b.space

theorem Target.needed_of_mem_importLines {spaces : List String}
    (hspaces : ∀ space ∈ spaces, ∃ ref b, target.bindings.find? ref = some b ∧ b.space = space) :
    ∀ unit ∈ target.importLines spaces, target.Needed unit := by
  intro unit hunit
  rw [Target.importLines, List.mem_eraseDups] at hunit
  obtain ⟨space, hspace, rfl⟩ := List.mem_map.1 hunit
  obtain ⟨ref, b, hfind, rfl⟩ := hspaces space hspace
  exact Or.inr ⟨ref, b, hfind, rfl⟩

theorem PklType.exists_find?_of_mem_foreignSpaces {e : PklType} {space : String}
    (h : space ∈ e.foreignSpaces target) :
    ∃ ref b, target.bindings.find? ref = some b ∧ b.space = space := by
  rw [PklType.foreignSpaces, Target.foreignSpaces, List.mem_eraseDups] at h
  obtain ⟨b, hb, hspace⟩ := List.mem_map.1 h
  rw [List.mem_filter, List.mem_filterMap] at hb
  obtain ⟨⟨ref, -, hfind⟩, -⟩ := hb
  exact ⟨ref, b, hfind, hspace⟩

namespace Member

theorem AliasText.needed {d : Declaration} (h : AliasText d target m) :
    ∀ unit ∈ m.units, target.Needed unit := by
  rw [h.units_eq]
  exact Target.needed_of_mem_importLines fun _ => PklType.exists_find?_of_mem_foreignSpaces

theorem ClassText.needed {d : Declaration} {superclass : Option Binding}
    {fields : List DataField} (h : ClassText d target superclass fields m) :
    ∀ unit ∈ m.units, target.Needed unit := by
  rw [h.units_eq]
  refine Target.needed_of_mem_importLines fun space hspace => ?_
  rcases List.mem_append.1 hspace with hsuper | hfield
  · rcases superclassBinding_eq_ok_iff.1 h.superclass_eq with ⟨-, rfl⟩ | ⟨ref, b, -, rfl, hb⟩
    · simp [superclassSpaces] at hsuper
    · -- The only namespace that a superclass adds is its own.
      have hown : b.space = space := by
        rw [superclassSpaces] at hsuper
        split at hsuper
        · exact (List.mem_singleton.1 hsuper).symm
        · simp at hsuper
      exact ⟨ref, b, hb, hown⟩
  · obtain ⟨field, -, hspace⟩ := List.mem_flatMap.1 hfield
    exact PklType.exists_find?_of_mem_foreignSpaces hspace

/-- The member of a declaration imports nothing that it does not need. -/
theorem needed_of_ofDeclaration {d : Declaration} {position : Nat}
    (h : ofDeclaration d position target = .ok m) : ∀ unit ∈ m.units, target.Needed unit := by
  cases (ofDeclaration_eq_ok h).2 with
  | typeAlias _ htext => exact htext.needed
  | enumeration _ hunits =>
      intro unit hunit
      rw [hunits] at hunit
      exact Or.inl (List.mem_singleton.1 hunit)
  | dataclass _ htext => exact htext.needed

end Member

end PklBindings
