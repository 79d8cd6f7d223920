import PklBindings.Proofs.Generation
import PklBindings.Proofs.OpenLines

/-!
# Names on which two tables agree

The generated code of a declaration depends on the bindings only through the Python names of the
declaration itself and of what its code refers to: two targets that agree on these names give the
same member, or fail for the same reason (`Member.ofDeclaration_congr`). The same holds of the
members of a module (`Module.members_congr`).
-/

namespace PklBindings

namespace Target

/-- Two targets have one namespace and one layout, and bind each of the names alike. -/
structure AgreeOn (refs : List String) (t t' : Target) : Prop where
  space_eq : t.space = t'.space
  indentUnit_eq : t.indentUnit = t'.indentUnit
  fileSuffix_eq : t.fileSuffix = t'.fileSuffix
  boundName_eq : ∀ ref ∈ refs, (t.bindings.find? ref).map Binding.boundName =
    (t'.bindings.find? ref).map Binding.boundName

namespace AgreeOn

variable {refs refs' : List String} {t t' : Target}

theorem mono (h : AgreeOn refs t t') (hsub : ∀ ref ∈ refs', ref ∈ refs) : AgreeOn refs' t t' :=
  { h with boundName_eq := fun ref href => h.boundName_eq ref (hsub ref href) }

theorem left (h : AgreeOn (refs ++ refs') t t') : AgreeOn refs t t' :=
  h.mono fun _ => List.mem_append_left _

theorem right (h : AgreeOn (refs ++ refs') t t') : AgreeOn refs' t t' :=
  h.mono fun _ => List.mem_append_right _

/-- Either none of the two binds a name, or both bind it alike. -/
theorem find?_cases (h : AgreeOn refs t t') {ref : String} (href : ref ∈ refs) :
    t.bindings.find? ref = none ∧ t'.bindings.find? ref = none ∨
      ∃ b b', t.bindings.find? ref = some b ∧ t'.bindings.find? ref = some b' ∧
        b.space = b'.space ∧ b.name = b'.name := by
  have hsame := h.boundName_eq ref href
  cases hfind : t.bindings.find? ref with
  | none =>
      rw [hfind, Option.map_none, eq_comm, Option.map_eq_none_iff] at hsame
      exact .inl ⟨rfl, hsame⟩
  | some b =>
      rw [hfind, Option.map_some, eq_comm, Option.map_eq_some_iff] at hsame
      obtain ⟨b', hfind', hname⟩ := hsame
      obtain ⟨hspace, hname⟩ := Prod.mk.inj hname
      exact .inr ⟨b, b', rfl, hfind', hspace.symm, hname.symm⟩

section Spelling

variable (h : AgreeOn refs t t') {b b' : Binding} (hspace : b.space = b'.space)
  (hname : b.name = b'.name)

include h hspace

theorem isForeign_eq : t.isForeign b = t'.isForeign b' := by
  rw [isForeign, isForeign, h.space_eq, hspace]

include hname

theorem spelling_eq : t.spelling b = t'.spelling b' := by
  rw [spelling, spelling, h.isForeign_eq hspace, importName, importName, h.fileSuffix_eq, hspace,
    hname]

end Spelling

theorem foreignSpaces_eq (h : AgreeOn refs t t') :
    t.foreignSpaces refs = t'.foreignSpaces refs := by
  have hspaces : ((refs.filterMap t.bindings.find?).filter t.isForeign).map (·.space) =
      ((refs.filterMap t'.bindings.find?).filter t'.isForeign).map (·.space) := by
    induction refs with
    | nil => rfl
    | cons ref refs ih =>
        have hrest := ih (h.mono fun _ => List.mem_cons_of_mem ref)
        obtain ⟨hfind, hfind'⟩ | ⟨b, b', hfind, hfind', hspace, -⟩ :=
          h.find?_cases (List.mem_cons_self (a := ref) (l := refs))
        · rw [List.filterMap_cons_none hfind, List.filterMap_cons_none hfind', hrest]
        · rw [List.filterMap_cons_some hfind, List.filterMap_cons_some hfind', List.filter_cons,
            List.filter_cons, h.isForeign_eq hspace]
          split
          · rw [List.map_cons, List.map_cons, hrest, hspace]
          · exact hrest
  rw [foreignSpaces, foreignSpaces, hspaces]

theorem importLines_eq (h : AgreeOn refs t t') (spaces : List String) :
    t.importLines spaces = t'.importLines spaces := by
  have hline : t.importLine = t'.importLine := by
    funext space
    rw [importLine, importLine, importName, importName, h.fileSuffix_eq]
  rw [importLines, importLines, hline]

end AgreeOn

end Target

open Target (AgreeOn)

/-! ## Types -/

namespace PklType

-- The cases are those of `annotate`; each part is annotated alike since its references are among
-- those of the whole.
mutual

theorem annotate_congr {t t' : Target} : ∀ {owner e : PklType}, AgreeOn e.references t t' →
    annotate t owner e = annotate t' owner e
  | _, missing, _ => rfl
  | _, unsupported _ _, _ => rfl
  | _, primitive _ _, _ => rfl
  | _, literal _ _, _ => rfl
  | _, declared l ref, h => by
      rw [annotate, annotate]
      obtain ⟨hfind, hfind'⟩ | ⟨b, b', hfind, hfind', hspace, hname⟩ :=
        h.find?_cases List.mem_cons_self
      · rw [hfind, hfind']
      · simp only [hfind, hfind', h.spelling_eq hspace hname]
  | _, nullable _ inner, h => by
      have h : AgreeOn inner.references t t' := h
      rw [annotate, annotate, annotate_congr h]
  | _, union _ [], _ => by rw [annotate, annotate]
  | _, union _ (e :: es), h => by
      have h : AgreeOn (e.references ++ referencesAll es) t t' := h
      rw [annotate, annotate, annotate_congr h.left, annotateAll_congr h.right]
  | _, generic _ base arguments, h => by
      have h : AgreeOn (base.references ++ referencesAll arguments) t t' := h
      rw [annotate, annotate, annotate_congr h.left, annotateAll_congr h.right]
  | _, function _ parameters result, h => by
      have h : AgreeOn (referencesAll parameters ++ result.references) t t' := h
      rw [annotate, annotate, annotateAll_congr h.left, annotate_congr h.right]

theorem annotateAll_congr {t t' : Target} : ∀ {owner : PklType} {es : List PklType},
    AgreeOn (referencesAll es) t t' → annotateAll t owner es = annotateAll t' owner es
  | _, [], _ => rfl
  | _, e :: es, h => by
      have h : AgreeOn (e.references ++ referencesAll es) t t' := h
      rw [annotateAll, annotateAll, annotate_congr h.left, annotateAll_congr h.right]

end

variable {e : PklType} {t t' : Target} (h : AgreeOn e.references t t')

include h

theorem requireAnnotation_congr (untyped : GenerationError) :
    e.requireAnnotation untyped t = e.requireAnnotation untyped t' := by
  rw [PklType.requireAnnotation, PklType.requireAnnotation, PklType.annotation,
    PklType.annotation, annotate_congr h]

theorem foreignSpaces_congr : e.foreignSpaces t = e.foreignSpaces t' :=
  h.foreignSpaces_eq

end PklType

/-! ## Declarations -/

namespace DataField

variable {t t' : Target} {ps : List Property}

theorem ofProperties_congr (h : AgreeOn (ps.flatMap (·.type.references)) t t') (key : String)
    (earlier : List DataField) :
    ofProperties key t earlier ps = ofProperties key t' earlier ps := by
  induction ps generalizing earlier with
  | nil => rfl
  | cons p ps ih =>
      rw [List.flatMap_cons] at h
      have hfield : ofProperty key t earlier p = ofProperty key t' earlier p := by
        rw [ofProperty, ofProperty, PklType.requireAnnotation_congr h.left]
      simp only [ofProperties, hfield, ih h.right]

/-- The fields of properties need the same foreign namespaces. -/
theorem foreignSpaces_congr {key : String} {earlier fields : List DataField}
    (hfields : ofProperties key t' earlier ps = .ok fields)
    (h : AgreeOn (ps.flatMap (·.type.references)) t t') :
    (fields.flatMap fun field => field.property.type.foreignSpaces t) =
      fields.flatMap fun field => field.property.type.foreignSpaces t' := by
  refine List.flatMap_congr fun field hfield => ?_
  obtain ⟨p, hmem, hshows⟩ := exists_mem_zip_of_mem_right (shows_of_ofProperties hfields) hfield
  rw [hshows.property_eq]
  refine PklType.foreignSpaces_congr (h.mono fun ref href => ?_)
  exact List.mem_flatMap.2 ⟨p, (List.of_mem_zip hmem).1, href⟩

end DataField

namespace Member

variable {d : Declaration} {t t' : Target}

/-- The name of a declaration is looked up first, and then only the name counts. -/
theorem bindingFor_bind_congr {α : Type} {f f' : Binding → Except GenerationError α}
    (h : AgreeOn [d.qualifiedName] t t')
    (hf : ∀ b b', b.space = b'.space → b.name = b'.name → f b = f' b') :
    d.bindingFor t >>= f = d.bindingFor t' >>= f' := by
  rw [Declaration.bindingFor, Declaration.bindingFor]
  obtain ⟨hfind, hfind'⟩ | ⟨b, b', hfind, hfind', hspace, hname⟩ :=
    h.find?_cases List.mem_cons_self
  · rw [hfind, hfind']
    rfl
  · rw [hfind, hfind']
    exact hf b b' hspace hname

theorem superclassBinding_bind_congr {α : Type}
    {f f' : Option Binding → Except GenerationError α} (h : AgreeOn d.superclass.toList t t')
    (hnone : f none = f' none)
    (hf : ∀ b b', b.space = b'.space → b.name = b'.name → f (some b) = f' (some b')) :
    superclassBinding d t >>= f = superclassBinding d t' >>= f' := by
  rw [superclassBinding, superclassBinding]
  cases hsuperclass : d.superclass with
  | none => exact hnone
  | some ref =>
      rw [hsuperclass] at h
      obtain ⟨hfind, hfind'⟩ | ⟨b, b', hfind, hfind', hspace, hname⟩ :=
        h.find?_cases List.mem_cons_self
      · simp only [hfind, hfind']
        rfl
      · simp only [hfind, hfind']
        exact hf b b' hspace hname

theorem ofTypeAlias_congr (h : AgreeOn (d.qualifiedName :: d.aliasedType.references) t t')
    (position : Nat) : ofTypeAlias d position t = ofTypeAlias d position t' := by
  have htype := h.mono fun _ => List.mem_cons_of_mem d.qualifiedName
  refine bindingFor_bind_congr (h.mono (by simp)) fun b b' hspace hname => ?_
  rw [PklType.requireAnnotation_congr htype, PklType.foreignSpaces_congr htype,
    htype.importLines_eq, hname]

theorem ofEnumeration_congr (h : AgreeOn [d.qualifiedName] t t') (position : Nat) :
    ofEnumeration d position t = ofEnumeration d position t' :=
  bindingFor_bind_congr h fun b b' _ hname => by rw [hname]

theorem ofClass_congr (h : AgreeOn (d.qualifiedName :: (d.superclass.toList ++
      d.visibleProperties.flatMap (·.type.references))) t t') (position : Nat) :
    ofClass d position t = ofClass d position t' := by
  have hrest := h.mono fun _ => List.mem_cons_of_mem d.qualifiedName
  refine bindingFor_bind_congr (h.mono (by simp)) fun b b' _ hname => ?_
  -- Whatever the superclass is, the fields come next.
  have hfields := DataField.ofProperties_congr hrest.right d.qualifiedName []
  refine superclassBinding_bind_congr hrest.left ?_ fun c c' hspace' hname' => ?_
  · simp only [hfields]
    cases hof : DataField.ofProperties d.qualifiedName t' [] d.visibleProperties with
    | error e => rfl
    | ok fields =>
        simp only [bind, Except.bind, DataField.foreignSpaces_congr hof hrest.right,
          hrest.importLines_eq, hname, superclassClause, superclassSpaces]
  · simp only [hfields]
    cases hof : DataField.ofProperties d.qualifiedName t' [] d.visibleProperties with
    | error e => rfl
    | ok fields =>
        simp only [bind, Except.bind, DataField.foreignSpaces_congr hof hrest.right,
          hrest.importLines_eq, hname, superclassClause, superclassSpaces,
          hrest.spelling_eq hspace' hname', hrest.isForeign_eq hspace', hspace']

theorem ofDeclaration_congr (h : AgreeOn (d.qualifiedName :: d.emittedReferences) t t')
    (position : Nat) : ofDeclaration d position t = ofDeclaration d position t' := by
  rw [ofDeclaration, ofDeclaration]
  rw [Declaration.emittedReferences] at h
  cases hkind : d.kind with
  | typeAlias =>
      rw [hkind] at h
      exact ofTypeAlias_congr h position
  | enumeration =>
      rw [hkind] at h
      exact ofEnumeration_congr h position
  | moduleClass =>
      rw [hkind] at h
      exact ofClass_congr h position
  | ordinaryClass =>
      rw [hkind] at h
      exact ofClass_congr h position

end Member

/-! ## Modules -/

namespace Module

/-- The qualified names that the module declares and that its generated code refers to. -/
def mentions (m : Module) : List String :=
  m.declarations.flatMap fun d => d.qualifiedName :: d.emittedReferences

variable {m : Module} {t t' : Target}

theorem agreeOn_of_mem (h : AgreeOn m.mentions t t') {d : Declaration}
    (hd : d ∈ m.declarations) : AgreeOn (d.qualifiedName :: d.emittedReferences) t t' :=
  h.mono fun _ href => List.mem_flatMap.2 ⟨d, hd, href⟩

theorem checkPlace_congr {d : Declaration} (h : AgreeOn [d.qualifiedName] t t') :
    m.checkPlace t d = m.checkPlace t' d := by
  refine Member.bindingFor_bind_congr h fun b b' hspace _ => ?_
  rw [h.isForeign_eq hspace, h.space_eq, hspace]

/-- The members of a module are the same for two targets that agree on what it mentions. -/
theorem members_congr (h : AgreeOn m.mentions t t') : m.members t = m.members t' := by
  refine mapM_congr ?_
  rintro ⟨d, position⟩ hd
  exact Member.ofDeclaration_congr (agreeOn_of_mem h (List.fst_mem_of_mem_zipIdx hd)) position

/-- Their order is the same, if in both or in neither names collide. -/
theorem orderedMembers_eq_ok_congr (h : AgreeOn m.mentions t t')
    (hcollisions : Collision.inSpace t.bindings t.space = [] ↔
      Collision.inSpace t'.bindings t'.space = []) {members : List Member} :
    m.orderedMembers t = .ok members ↔ m.orderedMembers t' = .ok members := by
  have hplaces : m.declarations.forM (m.checkPlace t) = m.declarations.forM (m.checkPlace t') :=
    forM_congr fun d hd => checkPlace_congr ((agreeOn_of_mem h hd).mono (by simp))
  have hcheck : ∀ u, checkCollisions t = .ok u ↔ checkCollisions t' = .ok u := by
    rintro ⟨⟩
    rw [checkCollisions_eq_ok_iff, checkCollisions_eq_ok_iff, hcollisions]
  simp only [orderedMembers, bind_eq_ok_iff, hplaces, hcheck, members_congr h]

end Module

theorem Document.ofMembers_congr {refs : List String} {t t' : Target} (h : AgreeOn refs t t')
    (header : List String) (moduleName className : String) (members : List Member) :
    ofMembers t header moduleName className members =
      ofMembers t' header moduleName className members := by
  rw [ofMembers, ofMembers, h.space_eq, h.indentUnit_eq, h.fileSuffix_eq]

end PklBindings
