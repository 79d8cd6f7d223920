import PklBindings.Proofs.DefaultBindings
import PklBindings.Proofs.GenerationFaults

/-!
# Schemas that are read

A schema that is read from a document is well formed: its declarations are as
`Declaration.Representable` says, and if the document gives no bindings, the table has one for each
declaration, in order. In a well-formed schema no type is missing, so the generation never fails for
that reason (`Schema.wellFormed_of_ofJson`).
-/

namespace PklBindings

/-- The error reports that a type was left out: that of an alias, that of a property, or a part of
another type. -/
inductive GenerationError.OfMissingType : GenerationError → Prop where
  | alias (location : Location) (name : String) : OfMissingType (.untypedAlias location name)
  | property (location : Location) (name : String) : OfMissingType (.untypedProperty location name)
  | part (type : UnsupportedType) (reason_eq : type.reason = .missingPart) :
    OfMissingType (.unsupported type)

/-! ## Types with all their parts -/

namespace PklType

-- The cases are those of `annotate`: an expression is only reported itself or for one of its parts.
mutual

theorem reason_ne_of_annotate {target : Target} {file : String} {u : UnsupportedType} :
    ∀ {owner e : PklType}, e.StandsIn file → annotate target owner e = .error u →
      u.reason ≠ .missingPart
  | _, missing, hstands, _ => hstands.elim
  | _, unsupported _ _, _, h => by
      cases h
      simp [UnsupportedType.of]
  | _, primitive _ _, _, h => by cases h
  | _, literal _ _, _, h => by cases h
  | _, declared _ ref, _, h => by
      rw [annotate] at h
      split at h
      · cases h
        simp [UnsupportedType.of]
      · cases h
  | _, nullable _ inner, ⟨_, hinner⟩, h => by
      rw [annotate] at h
      rcases bind_eq_error_iff.1 h with h | ⟨_, _, h⟩
      · exact reason_ne_of_annotate hinner h
      · cases h
  | _, union _ [], _, h => by
      cases h
      simp [UnsupportedType.of]
  | _, union _ (e :: es), ⟨_, hfirst, hothers⟩, h => by
      rw [annotate] at h
      rcases bind_eq_error_iff.1 h with h | ⟨_, _, h⟩
      · exact reason_ne_of_annotate hfirst h
      rcases bind_eq_error_iff.1 h with h | ⟨_, _, h⟩
      · exact reason_ne_of_annotateAll hothers h
      · cases h
  | _, generic _ base arguments, ⟨_, hbase, harguments⟩, h => by
      rw [annotate] at h
      rcases bind_eq_error_iff.1 h with h | ⟨_, _, h⟩
      · exact reason_ne_of_annotate hbase h
      rcases bind_eq_error_iff.1 h with h | ⟨_, _, h⟩
      · exact reason_ne_of_annotateAll harguments h
      · cases h
  | _, function _ parameters result, ⟨_, hparameters, hresult⟩, h => by
      rw [annotate] at h
      rcases bind_eq_error_iff.1 h with h | ⟨_, _, h⟩
      · exact reason_ne_of_annotateAll hparameters h
      rcases bind_eq_error_iff.1 h with h | ⟨_, _, h⟩
      · exact reason_ne_of_annotate hresult h
      · cases h

theorem reason_ne_of_annotateAll {target : Target} {file : String} {u : UnsupportedType} :
    ∀ {owner : PklType} {es : List PklType}, StandAllIn file es →
      annotateAll target owner es = .error u → u.reason ≠ .missingPart
  | _, [], _, h => by cases h
  | _, e :: es, ⟨hfirst, hothers⟩, h => by
      rw [annotateAll] at h
      rcases bind_eq_error_iff.1 h with h | ⟨_, _, h⟩
      · exact reason_ne_of_annotate hfirst h
      rcases bind_eq_error_iff.1 h with h | ⟨_, _, h⟩
      · exact reason_ne_of_annotateAll hothers h
      · cases h

end

/-- A type that stands in a file is not missing, and neither is a part of it. -/
theorem StandsIn.not_ofMissingType {e : PklType} {file : String} (h : e.StandsIn file)
    {target : Target} {u : UnsupportedType} (hfail : e.annotation target = .error u) :
    ¬ GenerationError.OfMissingType (.unsupported u) := by
  intro hmissing
  cases hmissing with
  | part _ hreason => exact reason_ne_of_annotate h hfail hreason

end PklType

/-! ## Faults of well-formed schemas -/

section Faults

variable {target : Target} {moduleName file : String} {e : GenerationError}

theorem Property.Representable.not_ofMissingType {p : Property} (h : p.Representable file)
    {key : String} {earlier : List DataField} (hfault : DataField.Fault key target earlier p e) :
    ¬ e.OfMissingType := by
  cases hfault with
  | reserved _ => rintro ⟨⟩
  | shared _ _ => rintro ⟨⟩
  | untyped hmissing =>
      rw [h.type.standsIn.isMissing_eq] at hmissing
      cases hmissing
  | unsupported hfail => exact h.type.standsIn.not_ofMissingType hfail

theorem Declaration.Representable.not_ofMissingType {d : Declaration}
    (h : d.Representable moduleName file) (hfault : Member.Fault d target e) :
    ¬ e.OfMissingType := by
  cases hfault with
  | unbound _ => rintro ⟨⟩
  | untypedAlias hkind hmissing =>
      rw [(h.aliasedType hkind).standsIn.isMissing_eq] at hmissing
      cases hmissing
  | unsupportedAlias hkind hfail =>
      exact (h.aliasedType hkind).standsIn.not_ofMissingType hfail
  | unboundSuperclass _ _ _ => rintro ⟨⟩
  | @property before after p _ _ _ hsplit _ hfault =>
      have hvisible : p ∈ d.visibleProperties := by simp [hsplit]
      exact (h.properties p (List.mem_filter.1 hvisible).1).not_ofMissingType hfault

theorem Module.Fault.not_ofMissingType {m : Module}
    (h : ∀ d ∈ m.declarations, d.Representable moduleName file) (hfault : m.Fault target e) :
    ¬ e.OfMissingType := by
  cases hfault with
  | member hd hfault => exact (h _ hd).not_ofMissingType hfault
  | misplaced _ _ _ => rintro ⟨⟩
  | moduleClassCount _ => rintro ⟨⟩
  | collisions _ => rintro ⟨⟩
  | unordered _ _ => rintro ⟨⟩

theorem Schema.Fault.not_ofMissingType {schema : Schema} {options : Options} {source : String}
    (h : ∀ m ∈ schema.modules, ∀ d ∈ m.declarations, d.Representable m.name (m.file source))
    (hfault : schema.Fault options e) : ¬ e.OfMissingType := by
  cases hfault with
  | emptySuffix _ => rintro ⟨⟩
  | claim _ hfault => cases hfault <;> rintro ⟨⟩
  | module hm _ hfault => exact Module.Fault.not_ofMissingType (h _ hm) hfault

end Faults

/-! ## What is read is well formed -/

namespace Schema

variable {source : String} {json : Json} {schema : Schema}

theorem representable_of_ofJson (h : Schema.ofJson source json = .ok schema) :
    ∀ m ∈ schema.modules, ∀ d ∈ m.declarations, d.Representable m.name (m.file source) := by
  obtain ⟨s, hrun⟩ := run_schema_of_ofJson h
  obtain ⟨members, items, t, -, -, hmodules, -⟩ := Reflection.exists_modules_of_schema hrun
  exact Reflection.forall_of_readItems Reflection.representable_of_moduleIn hmodules

/-- In the schema of a document every type has all its parts and no part lies deeper than the limit,
type aliases and only they have an aliased type, declarations have the name of their module, and all
locations of a module stand in its file, at lines and columns that count from one. If the document
gives no bindings, the table has those of all declarations, module after module, each in the
namespace that the document gives the module. Whatever the options, the generation does not fail
because a type is missing. -/
theorem wellFormed_of_ofJson (h : Schema.ofJson source json = .ok schema) :
    (∀ m ∈ schema.modules, ∀ d ∈ m.declarations, d.Representable m.name (m.file source)) ∧
      (Reflection.WithoutBindings json → ∃ members items, json = .object members ∧
        Json.Members.get? members "modules" = some (.array items) ∧
        List.Forall₂ (fun item m => item.textUnder? "name" = some m.name) items schema.modules ∧
        List.Forall₂ (fun e b => b.StandsFor e.1 e.2)
          (Reflection.declarationsOf items schema.modules) schema.bindings.entries) ∧
      ∀ options ds e ds', (schema.generate options).run.run ds = (.error e, ds') →
        ¬ e.OfMissingType := by
  have hrepresentable := representable_of_ofJson h
  refine ⟨hrepresentable, ?_, ?_⟩
  · intro hwithout
    obtain ⟨s, hrun⟩ := run_schema_of_ofJson h
    obtain ⟨members, items, hjson, hitems, hmodules⟩ :=
      Reflection.schema_eq_ok_of_withoutBindings hrun hwithout
    have hnames : List.Forall₂ (fun item m => item.textUnder? "name" = some m.name) items
        schema.modules := by
      refine Reflection.forall₂_of_readItems ?_ hmodules
      intro path item m s s' hread
      exact (Reflection.run_moduleIn_eq_ok hread).1
    obtain ⟨added, hadded, hstand⟩ := Reflection.exists_added_of_modules hmodules
    rw [List.nil_append] at hadded
    rw [← hadded] at hstand
    exact ⟨members, items, hjson, (Reflection.moduleItems_eq_ok_iff.1 hitems).1, hnames, hstand⟩
  · intro options ds e ds' hrun
    exact (fault_of_generate hrun).not_ofMissingType hrepresentable

/-- The document of the renamed class is read to a well-formed schema, whose two bindings go to the
namespace that the document names. -/
theorem wellFormed_of_ofJson_renamedSchema :
    Schema.ofJson "s" renamedDocument = .ok renamedSchema ∧
      (∀ m ∈ renamedSchema.modules, ∀ d ∈ m.declarations, d.Representable m.name (m.file "s")) ∧
      (∃ members items, renamedDocument = .object members ∧
        Json.Members.get? members "modules" = some (.array items) ∧
        List.Forall₂ (fun item m => item.textUnder? "name" = some m.name) items
          renamedSchema.modules ∧
        List.Forall₂ (fun e b => b.StandsFor e.1 e.2)
          (Reflection.declarationsOf items renamedSchema.modules)
          renamedSchema.bindings.entries) ∧
      ∀ options ds e ds', (renamedSchema.generate options).run.run ds = (.error e, ds') →
        ¬ e.OfMissingType := by
  have hread : Schema.ofJson "s" renamedDocument = .ok renamedSchema := rfl
  have hwithout : Reflection.WithoutBindings renamedDocument := by
    intro members hmembers
    cases hmembers
    rfl
  obtain ⟨hrepresentable, hbindings, hnone⟩ := wellFormed_of_ofJson hread
  exact ⟨hread, hrepresentable, hbindings hwithout, hnone⟩

end Schema

end PklBindings
