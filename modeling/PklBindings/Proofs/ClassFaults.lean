import PklBindings.Proofs.CommentLines
import PklBindings.Proofs.Identifiers

/-!
# The classes of declarations

What can be wrong with a declaration that is to become a class, listed in the order in which it is
looked for (`Declaration.classFaults`): the declaration has no Python name, its superclass has none,
and then for one visible property after the other, its field is the one that registers the class, it
is that of an earlier property, or its type has no annotation. A declaration becomes a class unless
something is wrong with it, and the error is the first fault of the list. The class has one field
for each visible property, and in front of it nothing but the comments of that property
(`Member.class_fails_at_first_fault`).
-/

namespace PklBindings

/-! ## Faults -/

namespace Property

/-- What can be wrong with a visible property of the class `key` behind the properties `earlier`. -/
def faults (key : String) (target : Target) (earlier : List Property) (p : Property) :
    List GenerationError :=
  let field := Identifier.ofText p.name
  let reserved :=
    if field = DataField.registration then some (.reservedField p.location p.name key field)
    else none
  let shared := (earlier.find? (Identifier.ofText ·.name = field)).map fun other =>
    GenerationError.sharedField p.location p.name key field other.name other.location
  let type :=
    if p.type.isMissing then some (.untypedProperty p.location p.name)
    else (errorOf? (p.type.annotation target)).map .unsupported
  reserved.toList ++ shared.toList ++ type.toList

/-- The faults of properties, one property after the other. -/
def faultsFrom (key : String) (target : Target) (earlier : List Property) :
    List Property → List GenerationError
  | [] => []
  | p :: ps => p.faults key target earlier ++ faultsFrom key target (earlier ++ [p]) ps

/-- Whether a property can have a field of its own: it does not take the one that registers the
class, and its type is there and has an annotation. -/
structure HasField (target : Target) (p : Property) : Prop where
  not_reserved : Identifier.ofText p.name ≠ DataField.registration
  typed : p.type.isMissing = false
  annotated : ∃ s, p.type.annotation target = .ok s

end Property

namespace Declaration

/-- What can be wrong with a declaration that is to become a class, in the order in which it is
looked for. -/
def classFaults (d : Declaration) (target : Target) : List GenerationError :=
  let unbound :=
    if target.bindings.find? d.qualifiedName = none then
      [GenerationError.unbound d.location d.kind d.qualifiedName]
    else []
  let unboundSuperclass := (d.superclass.filter (target.bindings.find? · = none)).map fun ref =>
    GenerationError.unboundSuperclass d.location ref d.qualifiedName
  unbound ++ unboundSuperclass.toList ++
    Property.faultsFrom d.qualifiedName target [] d.visibleProperties

/-- Nothing is wrong with a declaration that is to become a class. -/
structure HasClass (d : Declaration) (target : Target) : Prop where
  bound : ∃ b, target.bindings.find? d.qualifiedName = some b
  superclass_bound : ∀ ref, d.superclass = some ref → ∃ b, target.bindings.find? ref = some b
  fields : ∀ p ∈ d.visibleProperties, p.HasField target
  apart : (d.visibleProperties.map (Identifier.ofText ·.name)).Nodup

end Declaration

/-! ## Fields -/

namespace DataField

variable {key : String} {target : Target} {ps earlier : List Property} {fields : List DataField}

/-- The first field of a name is that of the first property that has it. -/
theorem find?_property (h : List.Forall₂ (fun p (field : DataField) => field.Shows p target) ps
    fields) (name : String) :
    ps.find? (Identifier.ofText ·.name = name) =
      (fields.find? (·.name = name)).map (·.property) := by
  induction h with
  | nil => rfl
  | @cons p field ps fields hshows _ ih =>
      rw [List.find?_cons, List.find?_cons, hshows.name_eq]
      split
      · rw [Option.map_some, hshows.property_eq]
      · exact ih

theorem errorOf?_requireAnnotation (type : PklType) (untyped : GenerationError)
    (target : Target) : errorOf? (type.requireAnnotation untyped target) =
      if type.isMissing then some untyped
      else (errorOf? (type.annotation target)).map .unsupported := by
  rw [PklType.requireAnnotation]
  split
  · rfl
  · exact errorOf?_mapError _ _

theorem errorOf?_ofProperty
    (h : List.Forall₂ (fun p (field : DataField) => field.Shows p target) earlier fields)
    (p : Property) :
    errorOf? (ofProperty key target fields p) = (p.faults key target earlier).head? := by
  rw [ofProperty, Property.faults, find?_property h]
  -- The first check that fails hides the later ones, as the head of the list hides its tail.
  by_cases hreserved : Identifier.ofText p.name = registration
  · simp [hreserved, errorOf?]
  · cases fields.find? (·.name = Identifier.ofText p.name) with
    | some other => simp [hreserved, errorOf?]
    | none =>
        simp only [hreserved, if_false, Option.map_none, Option.toList_none, List.nil_append,
          errorOf?_bind_pure, errorOf?_requireAnnotation, Option.head?_toList]

/-- The error is that of the first property that has a fault. By induction on the properties that
are left: the fields behind the checks so far are those of the properties in front of them. -/
theorem errorOf?_ofProperties
    (h : List.Forall₂ (fun p (field : DataField) => field.Shows p target) earlier fields) :
    errorOf? (ofProperties key target fields ps) =
      (Property.faultsFrom key target earlier ps).head? := by
  induction ps generalizing earlier fields with
  | nil => rfl
  | cons p ps ih =>
      rw [ofProperties, Property.faultsFrom, List.head?_append, ← errorOf?_ofProperty h]
      apply errorOf?_bind
      intro field hfield
      rw [errorOf?_bind_pure]
      exact ih (List.rel_append h (.cons (shows_of_ofProperty hfield) .nil))

end DataField

/-! ## Declarations without faults -/

namespace Property

variable {key : String} {target : Target} {earlier ps : List Property} {p : Property}

theorem faults_eq_nil_iff : p.faults key target earlier = [] ↔ p.HasField target ∧
    ∀ other ∈ earlier, Identifier.ofText other.name ≠ Identifier.ofText p.name := by
  have htype : (if p.type.isMissing then some (.untypedProperty p.location p.name)
      else (errorOf? (p.type.annotation target)).map GenerationError.unsupported) = none ↔
        p.type.isMissing = false ∧ ∃ s, p.type.annotation target = .ok s := by
    rw [← errorOf?_eq_none_iff]
    cases p.type.isMissing <;> simp
  simp only [faults, List.append_eq_nil_iff, Option.toList_eq_nil_iff, htype,
    Option.map_eq_none_iff, List.find?_eq_none, decide_eq_true_eq, ite_eq_right_iff, reduceCtorEq,
    imp_false]
  constructor
  · rintro ⟨⟨hreserved, hshared⟩, htyped, hannotated⟩
    exact ⟨⟨hreserved, htyped, hannotated⟩, hshared⟩
  · rintro ⟨⟨hreserved, htyped, hannotated⟩, hshared⟩
    exact ⟨⟨hreserved, hshared⟩, htyped, hannotated⟩

theorem faultsFrom_eq_nil_iff : faultsFrom key target earlier ps = [] ↔
    (∀ p ∈ ps, p.HasField target) ∧ (ps.map (Identifier.ofText ·.name)).Nodup ∧
      ∀ p ∈ ps, ∀ other ∈ earlier, Identifier.ofText other.name ≠ Identifier.ofText p.name := by
  induction ps generalizing earlier with
  | nil => simp [faultsFrom]
  | cons p ps ih =>
      have hbehind : (∀ q ∈ ps, ∀ other ∈ earlier ++ [p],
          Identifier.ofText other.name ≠ Identifier.ofText q.name) ↔
          (∀ q ∈ ps, ∀ other ∈ earlier,
            Identifier.ofText other.name ≠ Identifier.ofText q.name) ∧
          Identifier.ofText p.name ∉ ps.map (Identifier.ofText ·.name) := by
        simp only [List.forall_mem_append, List.forall_mem_singleton, forall_and, List.mem_map,
          not_exists, not_and, ne_comm]
      rw [faultsFrom, List.append_eq_nil_iff, faults_eq_nil_iff, ih, hbehind, List.map_cons,
        List.nodup_cons, List.forall_mem_cons, List.forall_mem_cons]
      constructor
      · rintro ⟨⟨hp, hearlier⟩, hps, hnodup, hlater, hnew⟩
        exact ⟨⟨hp, hps⟩, ⟨hnew, hnodup⟩, hearlier, hlater⟩
      · rintro ⟨⟨hp, hps⟩, ⟨hnew, hnodup⟩, hearlier, hlater⟩
        exact ⟨⟨hp, hearlier⟩, hps, hnodup, hlater, hnew⟩

end Property

theorem Declaration.classFaults_eq_nil_iff {d : Declaration} {target : Target} :
    d.classFaults target = [] ↔ d.HasClass target := by
  simp only [classFaults, List.append_eq_nil_iff, Option.toList_eq_nil_iff, Option.map_eq_none_iff,
    Option.filter_eq_none_iff, Property.faultsFrom_eq_nil_iff, ite_eq_right_iff, List.cons_ne_nil,
    imp_false, decide_eq_true_eq, Option.ne_none_iff_exists']
  constructor
  · rintro ⟨⟨hbound, hsuperclass⟩, hfields, hapart, -⟩
    exact ⟨hbound, hsuperclass, hfields, hapart⟩
  · rintro ⟨hbound, hsuperclass, hfields, hapart⟩
    exact ⟨⟨hbound, hsuperclass⟩, hfields, hapart, by simp⟩

/-! ## Classes -/

/-- The lines of the field of a property: its name and its annotation on one line, and in front of
that line comments. -/
structure DataField.AreLinesOf (target : Target) (p : Property) (lines : List String) : Prop where
  isIdentifier : Identifier.IsIdentifier (Identifier.ofText p.name)
  exists_comments : ∃ comments annotation, p.type.annotation target = .ok annotation ∧
    lines = comments ++ [Identifier.ofText p.name ++ ": " ++ annotation] ∧
    ∀ comment ∈ comments, ['#'] <+: comment.toList ∧ '\n' ∉ comment.toList

theorem DataField.Shows.areLinesOf {field : DataField} {p : Property} {target : Target}
    (h : field.Shows p target) : AreLinesOf target p field.lines := by
  refine ⟨Identifier.isIdentifier_ofText p.name,
    (field.property.doc.map DocComment.commentLines).getD [], _, h.annotation_eq, ?_, ?_⟩
  · rw [lines, h.name_eq]
  · intro comment hcomment
    cases hdoc : field.property.doc with
    | none => simp [hdoc] at hcomment
    | some doc =>
        rw [hdoc, Option.map_some, Option.getD_some] at hcomment
        refine ⟨?_, DocComment.newline_notMem_of_mem_commentLines hcomment⟩
        obtain ⟨text, -, rfl⟩ := List.mem_map.1 hcomment
        obtain ⟨behind, hchars, -⟩ := DocComment.exists_toList_commentLine text
        exact ⟨behind, hchars.symm⟩

namespace Member

/-- The text of a class: a header with its superclass, and one level deep its documentation, the
fields of its visible properties in their order, and at the end the attribute that registers it. -/
structure IsClassOf (d : Declaration) (position : Nat) (target : Target) (m : Member) : Prop where
  stems : Stems d position target m
  exists_fields : ∃ superclass groups, superclassBinding d target = .ok superclass ∧
    List.Forall₂ (DataField.AreLinesOf target) d.visibleProperties groups ∧
    m.body.lines.toList = Block.layers
      ["@dataclass", "class " ++ m.name ++ superclassClause target superclass ++ ":"]
      (DocComment.classLines d.doc ++ groups.flatten ++
        (if d.visibleProperties.isEmpty && d.doc.isNone then [] else [""]) ++
        [DataField.registration ++ " = " ++ Quoted.encode d.qualifiedName])

variable {d : Declaration} {position : Nat} {target : Target} {m : Member}

theorem isClassOf_of_ofClass (h : ofClass d position target = .ok m) :
    IsClassOf d position target m := by
  obtain ⟨hstems, superclass, fields, htext⟩ := ofClass_eq_ok h
  have hshows := DataField.shows_of_ofProperties htext.fields_eq
  have hempty : fields.isEmpty = d.visibleProperties.isEmpty := by
    rw [Bool.eq_iff_iff, List.isEmpty_iff_length_eq_zero, List.isEmpty_iff_length_eq_zero,
      hshows.length_eq]
  refine ⟨hstems, superclass, fields.map DataField.lines, htext.superclass_eq, ?_, ?_⟩
  · rw [List.forall₂_map_right_iff]
    exact hshows.imp fun _ _ => DataField.Shows.areLinesOf
  · -- The gap in front of the last line is there if anything else is.
    rw [htext.body_eq, Block.lines_layers, dataclassLines, hempty, List.flatMap_def]
    rfl

theorem errorOf?_bindingFor (d : Declaration) (target : Target) :
    errorOf? (d.bindingFor target) =
      (if target.bindings.find? d.qualifiedName = none then
        [GenerationError.unbound d.location d.kind d.qualifiedName] else []).head? := by
  rw [Declaration.bindingFor]
  cases target.bindings.find? d.qualifiedName <;> rfl

theorem errorOf?_superclassBinding (d : Declaration) (target : Target) :
    errorOf? (superclassBinding d target) =
      (d.superclass.filter (target.bindings.find? · = none)).map fun ref =>
        GenerationError.unboundSuperclass d.location ref d.qualifiedName := by
  rw [superclassBinding]
  cases d.superclass with
  | none => rfl
  | some ref => cases hfind : target.bindings.find? ref <;> simp [hfind, errorOf?]

theorem errorOf?_ofClass (d : Declaration) (position : Nat) (target : Target) :
    errorOf? (ofClass d position target) = (d.classFaults target).head? := by
  rw [Declaration.classFaults, List.head?_append, List.head?_append, ← errorOf?_bindingFor,
    Option.head?_toList, ← errorOf?_superclassBinding, ← DataField.errorOf?_ofProperties .nil,
    Option.or_assoc]
  -- None of the three steps depends on what the earlier ones gave.
  refine errorOf?_bind fun binding _ => ?_
  refine errorOf?_bind fun superclass _ => ?_
  exact errorOf?_bind_pure _ _

/-- A declaration becomes a class unless something is wrong with it, and then the first fault is the
error. -/
theorem class_fails_at_first_fault (d : Declaration) (position : Nat) (target : Target) :
    ((∃ m, ofClass d position target = .ok m) ↔ d.HasClass target) ∧
      (∀ m, ofClass d position target = .ok m → IsClassOf d position target m) ∧
      ∀ e, ofClass d position target = .error e ↔ (d.classFaults target).head? = some e := by
  refine ⟨?_, fun m => isClassOf_of_ofClass, fun e => ?_⟩
  · rw [← errorOf?_eq_none_iff, errorOf?_ofClass, List.head?_eq_none_iff,
      Declaration.classFaults_eq_nil_iff]
  · rw [← errorOf?_eq_some_iff, errorOf?_ofClass]

/-- A class below one of another namespace. A hidden property has the field of a visible one, and
one property is called as Python calls its classes. -/
def derivedClass : Declaration where
  kind := .ordinaryClass
  name := "C"
  moduleName := "m"
  doc := some "Derived."
  superclass := some "n#B"
  properties := [
    { name := "class_", hidden := true },
    { name := "class", type := .nullable {} (.declared {} "n#B"), doc := some "One\n\ntwo" },
    { name := "9-lives", type := .primitive {} .int }]

/-- A class with three faults: two properties with one field, the second without a type, and one
with the field that registers the class. -/
def faultyClass : Declaration where
  kind := .ordinaryClass
  name := "C"
  moduleName := "m"
  properties := [
    { name := "class", type := .primitive {} .int, location := ⟨"m.pkl", 3, 3⟩ },
    { name := "class_", location := ⟨"m.pkl", 4, 3⟩ },
    { name := "_registered_identifier", type := .primitive {} .int, location := ⟨"m.pkl", 5, 3⟩ }]

/-- The namespace of both classes. -/
def derivedTarget : Target where
  space := "m"
  bindings := ⟨[
    { kind := .ordinaryClass, source := "m#C", space := "m", name := "C" },
    { kind := .ordinaryClass, source := "n#B", space := "n", name := "B" }]⟩

theorem class_fails_at_first_fault_derivedClass :
    (∃ m, ofClass derivedClass 0 derivedTarget = .ok m ∧
      IsClassOf derivedClass 0 derivedTarget m ∧ derivedClass.HasClass derivedTarget) ∧
    ∃ clash others, faultyClass.classFaults derivedTarget = clash :: others ∧
      others = [.untypedProperty ⟨"m.pkl", 4, 3⟩ "class_",
        .reservedField ⟨"m.pkl", 5, 3⟩ "_registered_identifier" "m#C" "_registered_identifier"] ∧
      clash = .sharedField ⟨"m.pkl", 4, 3⟩ "class_" "m#C" "class_" "class" ⟨"m.pkl", 3, 3⟩ ∧
      ofClass faultyClass 0 derivedTarget = .error clash := by
  obtain ⟨hsucceeds, hclass, -⟩ := class_fails_at_first_fault derivedClass 0 derivedTarget
  obtain ⟨-, -, hfails⟩ := class_fails_at_first_fault faultyClass 0 derivedTarget
  have hmade : ∃ m, ofClass derivedClass 0 derivedTarget = .ok m := ⟨_, rfl⟩
  refine ⟨?_, _, _, rfl, rfl, rfl, (hfails _).2 rfl⟩
  obtain ⟨m, hm⟩ := hmade
  exact ⟨m, hm, hclass m hm, hsucceeds.1 ⟨m, hm⟩⟩

end Member

end PklBindings
