import PklBindings.Proofs.AliasOrder

/-!
# Why nothing is generated

Every error of a generation comes from a fault of the schema, and the fault says which: of a
property (`DataField.Fault`), of a declaration (`Member.Fault`), of a module (`Module.Fault`) or of
the schema and its options (`Schema.Fault`). Among the faults of a module there is none of its
layout: the members of a module in order end with its module class
(`Module.Arranged.exists_root`), so a module with members in order has a document.
-/

namespace PklBindings

theorem PklType.requireAnnotation_eq_error_iff {type : PklType} {untyped e : GenerationError}
    {target : Target} :
    type.requireAnnotation untyped target = .error e ↔
      (type.isMissing = true ∧ e = untyped) ∨
        (type.isMissing = false ∧ ∃ u, type.annotation target = .error u ∧ e = .unsupported u) := by
  rw [PklType.requireAnnotation]
  cases hmissing : type.isMissing with
  | true => simp [eq_comm]
  | false =>
      simp only [Bool.false_eq_true, if_false, mapError_eq_error_iff, false_and, true_and, false_or,
        eq_comm (a := e)]

theorem Declaration.bindingFor_eq_error_iff {d : Declaration} {target : Target}
    {e : GenerationError} :
    d.bindingFor target = .error e ↔ target.bindings.find? d.qualifiedName = none ∧
      e = .unbound d.location d.kind d.qualifiedName := by
  rw [Declaration.bindingFor]
  split
  · rename_i hnone
    simp [hnone, eq_comm]
  · rename_i hsome
    simp [hsome]

/-! ## Properties -/

namespace DataField

/-- Why a property of the class `key` has no field behind the fields `earlier`. -/
inductive Fault (key : String) (target : Target) (earlier : List DataField) (p : Property) :
    GenerationError → Prop where
  | reserved (hname : Identifier.ofText p.name = registration) :
    Fault key target earlier p (.reservedField p.location p.name key registration)
  | shared {other : DataField} (hother : other ∈ earlier)
    (hname : other.name = Identifier.ofText p.name) :
    Fault key target earlier p (.sharedField p.location p.name key (Identifier.ofText p.name)
      other.property.name other.property.location)
  | untyped (hmissing : p.type.isMissing = true) :
    Fault key target earlier p (.untypedProperty p.location p.name)
  | unsupported {u : UnsupportedType} (hfail : p.type.annotation target = .error u) :
    Fault key target earlier p (.unsupported u)

variable {key : String} {target : Target} {earlier : List DataField} {e : GenerationError}

theorem fault_of_ofProperty {p : Property} (h : ofProperty key target earlier p = .error e) :
    Fault key target earlier p e := by
  rw [ofProperty] at h
  split at h
  · rename_i hname
    cases h
    exact hname ▸ .reserved hname
  · split at h
    · rename_i other hfind
      cases h
      exact .shared (List.mem_of_find?_eq_some hfind) (by simpa using List.find?_some hfind)
    · rcases bind_eq_error_iff.1 h with h | ⟨s, -, h⟩
      · rcases PklType.requireAnnotation_eq_error_iff.1 h with ⟨hmissing, rfl⟩ | ⟨-, u, hu, rfl⟩
        · exact .untyped hmissing
        · exact .unsupported hu
      · cases h

/-- The error is that of the first property without a field: all before it have theirs. -/
theorem exists_fault_of_ofProperties {ps : List Property}
    (h : ofProperties key target earlier ps = .error e) :
    ∃ before p after fields, ps = before ++ p :: after ∧
      ofProperties key target earlier before = .ok fields ∧
      Fault key target (earlier ++ fields) p e := by
  induction ps generalizing earlier with
  | nil => cases h
  | cons p ps ih =>
      rcases bind_eq_error_iff.1 h with hp | ⟨field, hfield, h⟩
      · refine ⟨[], p, ps, [], rfl, rfl, ?_⟩
        rw [List.append_nil]
        exact fault_of_ofProperty hp
      · rcases bind_eq_error_iff.1 h with hps | ⟨fields, -, h⟩
        · obtain ⟨before, p', after, fields, rfl, hbefore, hfault⟩ := ih hps
          refine ⟨p :: before, p', after, field :: fields, rfl, ?_, ?_⟩
          · exact bind_eq_ok_iff.2 ⟨field, hfield, bind_eq_ok_iff.2 ⟨fields, hbefore, rfl⟩⟩
          · rwa [List.append_assoc, List.singleton_append] at hfault
        · cases h

end DataField

/-! ## Declarations -/

namespace Member

/-- Why a declaration has no member. -/
inductive Fault (d : Declaration) (target : Target) : GenerationError → Prop where
  | unbound (hfind : target.bindings.find? d.qualifiedName = none) :
    Fault d target (.unbound d.location d.kind d.qualifiedName)
  | untypedAlias (hkind : d.kind = .typeAlias) (hmissing : d.aliasedType.isMissing = true) :
    Fault d target (.untypedAlias d.location d.name)
  | unsupportedAlias {u : UnsupportedType} (hkind : d.kind = .typeAlias)
    (hfail : d.aliasedType.annotation target = .error u) : Fault d target (.unsupported u)
  | unboundSuperclass {ref : String} (hkind : d.kind.mayInherit = true)
    (hsuperclass : d.superclass = some ref) (hfind : target.bindings.find? ref = none) :
    Fault d target (.unboundSuperclass d.location ref d.qualifiedName)
  | property {before after : List Property} {p : Property} {fields : List DataField}
    {e : GenerationError} (hkind : d.kind.mayInherit = true)
    (hsplit : d.visibleProperties = before ++ p :: after)
    (hbefore : DataField.ofProperties d.qualifiedName target [] before = .ok fields)
    (hfault : DataField.Fault d.qualifiedName target fields p e) : Fault d target e

variable {d : Declaration} {position : Nat} {target : Target} {e : GenerationError}

theorem superclassBinding_eq_error_iff :
    superclassBinding d target = .error e ↔ ∃ ref, d.superclass = some ref ∧
      target.bindings.find? ref = none ∧
      e = .unboundSuperclass d.location ref d.qualifiedName := by
  rw [superclassBinding]
  cases d.superclass with
  | none => simp
  | some ref => cases hfind : target.bindings.find? ref <;> simp [hfind, eq_comm]

theorem fault_of_ofTypeAlias (hkind : d.kind = .typeAlias)
    (h : ofTypeAlias d position target = .error e) : Fault d target e := by
  rcases bind_eq_error_iff.1 h with h | ⟨b, -, h⟩
  · obtain ⟨hfind, rfl⟩ := Declaration.bindingFor_eq_error_iff.1 h
    exact .unbound hfind
  · rcases bind_eq_error_iff.1 h with h | ⟨s, -, h⟩
    · rcases PklType.requireAnnotation_eq_error_iff.1 h with ⟨hmissing, rfl⟩ | ⟨-, u, hu, rfl⟩
      · exact .untypedAlias hkind hmissing
      · exact .unsupportedAlias hkind hu
    · cases h

theorem fault_of_ofEnumeration (h : ofEnumeration d position target = .error e) :
    Fault d target e := by
  rcases bind_eq_error_iff.1 h with h | ⟨b, -, h⟩
  · obtain ⟨hfind, rfl⟩ := Declaration.bindingFor_eq_error_iff.1 h
    exact .unbound hfind
  · cases h

theorem fault_of_ofClass (hkind : d.kind.mayInherit = true)
    (h : ofClass d position target = .error e) : Fault d target e := by
  rcases bind_eq_error_iff.1 h with h | ⟨b, -, h⟩
  · obtain ⟨hfind, rfl⟩ := Declaration.bindingFor_eq_error_iff.1 h
    exact .unbound hfind
  rcases bind_eq_error_iff.1 h with h | ⟨superclass, -, h⟩
  · obtain ⟨ref, hsuperclass, hfind, rfl⟩ := superclassBinding_eq_error_iff.1 h
    exact .unboundSuperclass hkind hsuperclass hfind
  rcases bind_eq_error_iff.1 h with h | ⟨fields, -, h⟩
  · obtain ⟨before, p, after, fields, hsplit, hbefore, hfault⟩ :=
      DataField.exists_fault_of_ofProperties h
    exact .property hkind hsplit hbefore hfault
  · cases h

theorem fault_of_ofDeclaration (h : ofDeclaration d position target = .error e) :
    Fault d target e := by
  rw [ofDeclaration] at h
  cases hkind : d.kind with
  | typeAlias =>
      rw [hkind] at h
      exact fault_of_ofTypeAlias hkind h
  | enumeration =>
      rw [hkind] at h
      exact fault_of_ofEnumeration h
  | moduleClass =>
      rw [hkind] at h
      exact fault_of_ofClass (by rw [hkind]; rfl) h
  | ordinaryClass =>
      rw [hkind] at h
      exact fault_of_ofClass (by rw [hkind]; rfl) h

end Member

/-! ## Modules -/

namespace Module

/-- Why a module has no members in order. -/
inductive Fault (m : Module) (target : Target) : GenerationError → Prop where
  | misplaced {d : Declaration} {b : Binding} (hd : d ∈ m.declarations)
    (hfind : target.bindings.find? d.qualifiedName = some b) (hspace : b.space ≠ target.space) :
    Fault m target (.misplaced d.location d.qualifiedName b.space m.name target.space)
  | moduleClassCount (hcount : m.declarations.countP (·.kind = .moduleClass) ≠ 1) :
    Fault m target
      (.moduleClassCount m.name (m.declarations.countP (·.kind = .moduleClass)))
  | collisions (hcollide : Collision.inSpace target.bindings target.space ≠ []) :
    Fault m target (.collisions (Collision.inSpace target.bindings target.space))
  | member {d : Declaration} {e : GenerationError} (hd : d ∈ m.declarations)
    (hfault : Member.Fault d target e) : Fault m target e
  | unordered {made : List Member} {reason : OrderError} (hmade : m.members target = .ok made)
    (hordered : Member.ordered made = .error reason) : Fault m target (.unordered reason)

variable {m : Module} {target : Target} {members : List Member} {e : GenerationError}

theorem fault_of_checkPlace {d : Declaration} (hd : d ∈ m.declarations)
    (h : m.checkPlace target d = .error e) : m.Fault target e := by
  rcases bind_eq_error_iff.1 h with h | ⟨b, hb, h⟩
  · obtain ⟨hfind, rfl⟩ := Declaration.bindingFor_eq_error_iff.1 h
    exact .member hd (.unbound hfind)
  · split at h
    · rename_i hforeign
      cases h
      exact .misplaced hd (Declaration.bindingFor_eq_ok_iff.1 hb)
        (by simpa [Target.isForeign] using hforeign)
    · cases h

theorem fault_of_members (h : m.members target = .error e) : m.Fault target e := by
  obtain ⟨⟨d, position⟩, hd, h⟩ := exists_mem_of_mapM_eq_error h
  exact .member (List.fst_mem_of_mem_zipIdx hd) (Member.fault_of_ofDeclaration h)

theorem fault_of_orderedMembers (h : m.orderedMembers target = .error e) : m.Fault target e := by
  rcases bind_eq_error_iff.1 h with h | ⟨-, -, h⟩
  · obtain ⟨d, hd, h⟩ := exists_mem_of_forM_eq_error h
    exact fault_of_checkPlace hd h
  rcases bind_eq_error_iff.1 h with h | ⟨-, -, h⟩
  · rw [checkModuleClass] at h
    split at h
    · cases h
    · rename_i hcount
      cases h
      exact .moduleClassCount hcount
  rcases bind_eq_error_iff.1 h with h | ⟨-, -, h⟩
  · rw [checkCollisions] at h
    split at h
    · cases h
    · rename_i hcollide
      cases h
      exact .collisions hcollide
  rcases bind_eq_error_iff.1 h with h | ⟨made, hmade, h⟩
  · exact fault_of_members h
  · obtain ⟨reason, hordered, rfl⟩ := mapError_eq_error_iff.1 h
    exact .unordered hmade hordered

/-- There is one module class, so it is the one that is found. -/
theorem eq_of_kind_moduleClass (hone : m.declarations.countP (·.kind = .moduleClass) = 1)
    {d : Declaration} (hd : d ∈ m.declarations) (hkind : d.kind = .moduleClass) :
    m.moduleClass? = some d := by
  obtain ⟨found, hfound⟩ : ∃ found, m.moduleClass? = some found := by
    rw [← Option.isSome_iff_exists, moduleClass?, List.find?_isSome]
    exact ⟨d, hd, by simpa using hkind⟩
  obtain ⟨c, hc⟩ := List.length_eq_one_iff.1 (List.countP_eq_length_filter ▸ hone)
  have heq : ∀ x ∈ m.declarations, x.kind = .moduleClass → x = c := by
    intro x hx hxkind
    have hmem : x ∈ m.declarations.filter (·.kind = .moduleClass) :=
      List.mem_filter.2 ⟨hx, decide_eq_true hxkind⟩
    rwa [hc, List.mem_singleton] at hmem
  rw [hfound, heq d hd hkind,
    heq found (List.mem_of_find?_eq_some hfound) (by simpa using List.find?_some hfound)]

/-- The members of a module in order end with that of its module class. -/
theorem Arranged.exists_root (h : m.Arranged target members) :
    ∃ others root d, members = others ++ [root] ∧ root.isModuleClass = true ∧
      (∀ member ∈ others, member.isModuleClass = false) ∧ m.moduleClass? = some d ∧
      root.key = d.qualifiedName := by
  obtain ⟨made, hmade, hordered⟩ := h.exists_made
  -- Members have the kinds of their declarations, so one of them is a module class.
  have hone : made.countP (·.isModuleClass) = 1 := by
    have hcounts := congrArg (List.countP fun e => decide (e.1 = Declaration.Kind.moduleClass))
      (map_kind_key_of_members hmade)
    rw [List.countP_map, List.countP_map] at hcounts
    exact hcounts.symm.trans h.moduleClass_count
  obtain ⟨others, root, rfl, hroot, hothers⟩ := Member.exists_root_of_ordered hordered hone
  obtain ⟨d, hd, hstems⟩ := h.emitsAll.stems root (by simp)
  have hkind : d.kind = .moduleClass := by
    rw [← hstems.kind_eq]
    simpa [Member.isModuleClass] using hroot
  exact ⟨others, root, d, rfl, hroot, hothers,
    eq_of_kind_moduleClass h.moduleClass_count (List.mem_of_getElem? hd) hkind, hstems.key_eq⟩

theorem Arranged.endsWithModuleClass (h : m.Arranged target members) :
    Document.endsWithModuleClass members = true := by
  obtain ⟨others, root, -, rfl, hroot, -⟩ := h.exists_root
  simpa [Document.endsWithModuleClass] using hroot

/-- Why a module has no document: a module with members in order has one. -/
theorem fault_of_document {header : List String} (h : m.document target header = .error e) :
    m.Fault target e := by
  rcases bind_eq_error_iff.1 h with h | ⟨members, hmembers, h⟩
  · exact fault_of_orderedMembers h
  · rw [Document.ofMembers, if_pos (orderedMembers_eq_ok_iff.1 hmembers).endsWithModuleClass] at h
    cases h

end Module

/-! ## Schemas -/

/-- Why a module does not get the namespace and the file that it claims, behind the claims of
earlier ones. -/
inductive Module.ClaimFault (m : Module) (bindings : BindingTable) (options : Options)
    (earlier : List Claim) : GenerationError → Prop where
  | noModuleClass (hclass : m.moduleClass? = none) :
    ClaimFault m bindings options earlier (.noModuleClass m.name)
  | unbound {d : Declaration} (hclass : m.moduleClass? = some d)
    (hfind : bindings.find? d.qualifiedName = none) :
    ClaimFault m bindings options earlier (.unboundModule d.location m.name)
  | sharedNamespace {other : Claim} {space : String} (hspace : m.space bindings = .ok space)
    (hother : other ∈ earlier) (heq : other.space = space) :
    ClaimFault m bindings options earlier (.sharedNamespace other.moduleName m.name space)
  | sharedFile {other : Claim} {space : String} (hspace : m.space bindings = .ok space)
    (hother : other ∈ earlier)
    (heq : other.fileName = ModuleName.fileName space options.fileSuffix) :
    ClaimFault m bindings options earlier (.sharedFile other.moduleName m.name
      (ModuleName.fileName space options.fileSuffix))

theorem Module.fault_of_claim {m : Module} {bindings : BindingTable} {options : Options}
    {earlier : List Claim} {e : GenerationError}
    (h : m.claim bindings options earlier = .error e) :
    m.ClaimFault bindings options earlier e := by
  rcases bind_eq_error_iff.1 h with h | ⟨space, hspace, h⟩
  · rw [Module.space] at h
    split at h
    · rename_i hclass
      cases h
      exact .noModuleClass hclass
    · rename_i hclass
      split at h
      · rename_i hfind
        cases h
        exact .unbound hclass hfind
      · cases h
  · simp only at h
    split at h
    · rename_i other hfind
      cases h
      exact .sharedNamespace hspace (List.mem_of_find?_eq_some hfind)
        (by simpa using List.find?_some hfind)
    · split at h
      · rename_i other hfind
        cases h
        exact .sharedFile hspace (List.mem_of_find?_eq_some hfind)
          (by simpa using List.find?_some hfind)
      · cases h

namespace Schema

/-- Why a schema is not generated. -/
inductive Fault (schema : Schema) (options : Options) : GenerationError → Prop where
  | emptySuffix (hsuffix : options.fileSuffix = "") : Fault schema options .emptySuffix
  | claim {m : Module} {earlier : List Claim} {e : GenerationError} (hm : m ∈ schema.modules)
    (hfault : m.ClaimFault schema.bindings options earlier e) : Fault schema options e
  | module {m : Module} {space : String} {e : GenerationError} (hm : m ∈ schema.modules)
    (hspace : m.space schema.bindings = .ok space)
    (hfault : m.Fault (Module.target schema.bindings options space) e) : Fault schema options e

variable {schema : Schema} {options : Options} {ds ds' : Diagnostics} {e : GenerationError}

theorem exists_fault_of_documentsFrom {earlier : List Claim} {ms : List Module}
    (h : (documentsFrom schema.bindings options earlier ms).run.run ds = (.error e, ds')) :
    ∃ m ∈ ms, (∃ claims, m.ClaimFault schema.bindings options claims e) ∨
      ∃ space, m.space schema.bindings = .ok space ∧
        m.Fault (Module.target schema.bindings options space) e := by
  induction ms generalizing earlier ds with
  | nil => cases h
  | cons m ms ih =>
      rw [run_documentsFrom_cons] at h
      cases hclaim : m.claim schema.bindings options earlier with
      | error e' =>
          rw [hclaim] at h
          cases h
          exact ⟨m, List.mem_cons_self, .inl ⟨earlier, Module.fault_of_claim hclaim⟩⟩
      | ok claim =>
          have hspace := (Module.claim_eq_ok_iff.1 hclaim).1
          simp only [hclaim] at h
          cases hdocument : m.document (Module.target schema.bindings options claim.space)
              (m.header options) with
          | error e' =>
              rw [hdocument] at h
              cases h
              exact ⟨m, List.mem_cons_self,
                .inr ⟨claim.space, hspace, Module.fault_of_document hdocument⟩⟩
          | ok document =>
              simp only [hdocument] at h
              split at h
              · rename_i hrest
                cases h
                obtain ⟨m', hm', hfault⟩ := ih hrest
                exact ⟨m', List.mem_cons_of_mem _ hm', hfault⟩
              · cases h

theorem fault_of_generate (h : (schema.generate options).run.run ds = (.error e, ds')) :
    schema.Fault options e := by
  rw [generate] at h
  split at h
  · rename_i hsuffix
    cases h
    exact .emptySuffix hsuffix
  · obtain ⟨m, hm, ⟨claims, hclaim⟩ | ⟨space, hspace, hfault⟩⟩ := exists_fault_of_documentsFrom h
    · exact .claim hm hclaim
    · exact .module hm hspace hfault

end Schema

end PklBindings
