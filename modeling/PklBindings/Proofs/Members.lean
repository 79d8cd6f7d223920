import PklBindings.Member.OfDeclaration
import PklBindings.Proofs.Results

/-!
# What a member takes from its declaration

A member has the name that its declaration is bound to and the kind and qualified name of the
declaration (`Stems`), and its text is laid out as the kind asks (`Shape`).
-/

namespace PklBindings

theorem Declaration.bindingFor_eq_ok_iff {d : Declaration} {target : Target} {b : Binding} :
    d.bindingFor target = .ok b ↔ target.bindings.find? d.qualifiedName = some b := by
  rw [Declaration.bindingFor]
  split
  · rename_i hnone
    simp [hnone]
  · rename_i hsome
    simp [hsome]

theorem PklType.requireAnnotation_eq_ok_iff {e : PklType} {untyped : GenerationError}
    {target : Target} {s : String} :
    e.requireAnnotation untyped target = .ok s ↔
      e.isMissing = false ∧ e.annotation target = .ok s := by
  rw [PklType.requireAnnotation]
  cases hmissing : e.isMissing with
  | true => simp
  | false => simp [mapError_eq_ok_iff]

/-- The field of a property has its own name and the annotation of the property's type. -/
structure DataField.Shows (field : DataField) (p : Property) (target : Target) : Prop where
  name_eq : field.name = Identifier.ofText p.name
  property_eq : field.property = p
  annotation_eq : p.type.annotation target = .ok field.annotation

theorem DataField.shows_of_ofProperty {key : String} {target : Target} {p : Property}
    {earlier : List DataField} {field : DataField}
    (h : ofProperty key target earlier p = .ok field) : field.Shows p target := by
  rw [ofProperty] at h
  split at h
  · simp at h
  · split at h
    · simp at h
    · obtain ⟨s, hs, h⟩ := bind_eq_ok_iff.1 h
      obtain rfl : ⟨Identifier.ofText p.name, p, s⟩ = field := Except.ok.inj h
      exact ⟨rfl, rfl, (PklType.requireAnnotation_eq_ok_iff.1 hs).2⟩

/-- A class has one field for each property, in order. -/
theorem DataField.shows_of_ofProperties {key : String} {target : Target} {ps : List Property}
    {earlier fields : List DataField} (h : ofProperties key target earlier ps = .ok fields) :
    List.Forall₂ (fun p (field : DataField) => field.Shows p target) ps fields := by
  induction ps generalizing earlier fields with
  | nil =>
      cases h
      exact .nil
  | cons p ps ih =>
      obtain ⟨field, hfield, h⟩ := bind_eq_ok_iff.1 h
      obtain ⟨others, hothers, h⟩ := bind_eq_ok_iff.1 h
      cases h
      exact .cons (shows_of_ofProperty hfield) (ih hothers)

namespace Member

/-- A class without a superclass has no binding for one, and otherwise the superclass is bound. -/
theorem superclassBinding_eq_ok_iff {d : Declaration} {target : Target}
    {superclass : Option Binding} :
    superclassBinding d target = .ok superclass ↔
      (d.superclass = none ∧ superclass = none) ∨
        ∃ ref b, d.superclass = some ref ∧ superclass = some b ∧
          target.bindings.find? ref = some b := by
  rw [superclassBinding]
  cases d.superclass with
  | none => simp [eq_comm]
  | some ref => cases hfind : target.bindings.find? ref <;> simp [hfind, eq_comm]

/-- What every member takes from its declaration. -/
structure Stems (d : Declaration) (position : Nat) (target : Target) (m : Member) : Prop where
  bound : ∃ b, target.bindings.find? d.qualifiedName = some b ∧ m.name = b.name
  kind_eq : m.kind = d.kind
  key_eq : m.key = d.qualifiedName
  position_eq : m.position = position

/-- The text of a type alias: an assignment under its documentation. -/
structure AliasText (d : Declaration) (target : Target) (m : Member) : Prop where
  exists_lines : ∃ annotation comments, d.aliasedType.annotation target = .ok annotation ∧
    m.body = Block.empty.addLines (comments ++ [m.name ++ " = " ++ annotation])
  units_eq : m.units = target.importLines (d.aliasedType.foreignSpaces target)

/-- The text of a class: a header over its fields. -/
structure ClassText (d : Declaration) (target : Target) (superclass : Option Binding)
    (fields : List DataField) (m : Member) : Prop where
  superclass_eq : superclassBinding d target = .ok superclass
  fields_eq : DataField.ofProperties d.qualifiedName target [] d.visibleProperties = .ok fields
  body_eq : m.body = ((Block.empty.addLines
    ["@dataclass", "class " ++ m.name ++ superclassClause target superclass ++ ":"]).indent.addLines
      (dataclassLines d.qualifiedName d.doc fields)).dedent
  units_eq : m.units = target.importLines (superclassSpaces target superclass ++
    fields.flatMap fun field => field.property.type.foreignSpaces target)

/-- The text of a member, by the kind of its declaration. -/
inductive Shape (d : Declaration) (target : Target) (m : Member) : Prop where
  | typeAlias (kind_eq : d.kind = .typeAlias) (text : AliasText d target m) : Shape d target m
  | enumeration (kind_eq : d.kind = .enumeration) (units_eq : m.units = ["from enum import Enum"]) :
    Shape d target m
  | dataclass {superclass : Option Binding} {fields : List DataField}
    (kind_eq : d.kind = .moduleClass ∨ d.kind = .ordinaryClass)
    (text : ClassText d target superclass fields m) : Shape d target m

variable {d : Declaration} {position : Nat} {target : Target} {m : Member}

theorem ofTypeAlias_eq_ok (h : ofTypeAlias d position target = .ok m) :
    Stems d position target m ∧ AliasText d target m := by
  obtain ⟨b, hb, h⟩ := bind_eq_ok_iff.1 h
  obtain ⟨s, hs, h⟩ := bind_eq_ok_iff.1 h
  cases h
  rw [Declaration.bindingFor_eq_ok_iff] at hb
  rw [PklType.requireAnnotation_eq_ok_iff] at hs
  exact ⟨⟨⟨b, hb, rfl⟩, rfl, rfl, rfl⟩, ⟨s, _, hs.2, rfl⟩, rfl⟩

theorem ofEnumeration_eq_ok (h : ofEnumeration d position target = .ok m) :
    Stems d position target m ∧ m.units = ["from enum import Enum"] := by
  obtain ⟨b, hb, h⟩ := bind_eq_ok_iff.1 h
  cases h
  rw [Declaration.bindingFor_eq_ok_iff] at hb
  exact ⟨⟨⟨b, hb, rfl⟩, rfl, rfl, rfl⟩, rfl⟩

theorem ofClass_eq_ok (h : ofClass d position target = .ok m) :
    Stems d position target m ∧ ∃ superclass fields, ClassText d target superclass fields m := by
  obtain ⟨b, hb, h⟩ := bind_eq_ok_iff.1 h
  obtain ⟨superclass, hsuperclass, h⟩ := bind_eq_ok_iff.1 h
  obtain ⟨fields, hfields, h⟩ := bind_eq_ok_iff.1 h
  cases h
  rw [Declaration.bindingFor_eq_ok_iff] at hb
  exact ⟨⟨⟨b, hb, rfl⟩, rfl, rfl, rfl⟩, superclass, fields, hsuperclass, hfields, rfl, rfl⟩

/-- The member of a declaration of any kind. -/
theorem ofDeclaration_eq_ok (h : ofDeclaration d position target = .ok m) :
    Stems d position target m ∧ Shape d target m := by
  rw [ofDeclaration] at h
  cases hkind : d.kind with
  | typeAlias =>
      rw [hkind] at h
      obtain ⟨hstems, htext⟩ := ofTypeAlias_eq_ok h
      exact ⟨hstems, .typeAlias hkind htext⟩
  | enumeration =>
      rw [hkind] at h
      obtain ⟨hstems, hunits⟩ := ofEnumeration_eq_ok h
      exact ⟨hstems, .enumeration hkind hunits⟩
  | moduleClass =>
      rw [hkind] at h
      obtain ⟨hstems, superclass, fields, htext⟩ := ofClass_eq_ok h
      exact ⟨hstems, .dataclass (Or.inl hkind) htext⟩
  | ordinaryClass =>
      rw [hkind] at h
      obtain ⟨hstems, superclass, fields, htext⟩ := ofClass_eq_ok h
      exact ⟨hstems, .dataclass (Or.inr hkind) htext⟩

theorem stems_of_ofDeclaration (h : ofDeclaration d position target = .ok m) :
    Stems d position target m :=
  (ofDeclaration_eq_ok h).1

end Member

end PklBindings
