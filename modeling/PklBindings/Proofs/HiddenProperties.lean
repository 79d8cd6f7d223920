import PklBindings.Proofs.Generation

/-!
# Hidden properties

What is generated from a schema does not depend on its hidden properties
(`generate_eq_of_withoutHidden_eq`). Every step on the way to a document gives the same for a
declaration and for the declaration without its hidden properties; only the warnings are about
them.
-/

namespace PklBindings

/-! ## Declarations -/

namespace Declaration

/-- The declaration with its visible properties alone. -/
def withoutHidden (d : Declaration) : Declaration :=
  { d with properties := d.visibleProperties }

@[simp] theorem kind_withoutHidden (d : Declaration) : d.withoutHidden.kind = d.kind := rfl

@[simp] theorem location_withoutHidden (d : Declaration) :
    d.withoutHidden.location = d.location := rfl

@[simp] theorem qualifiedName_withoutHidden (d : Declaration) :
    d.withoutHidden.qualifiedName = d.qualifiedName := rfl

@[simp] theorem visibleProperties_withoutHidden (d : Declaration) :
    d.withoutHidden.visibleProperties = d.visibleProperties := by
  simp [withoutHidden, visibleProperties]

end Declaration

namespace Member

variable (d : Declaration) (position : Nat) (target : Target)

/-- A class has fields for its visible properties, and nothing else is taken from its
properties. -/
theorem ofClass_withoutHidden : ofClass d.withoutHidden position target =
    ofClass d position target := by
  rw [ofClass, Declaration.visibleProperties_withoutHidden]
  rfl

theorem ofDeclaration_withoutHidden : ofDeclaration d.withoutHidden position target =
    ofDeclaration d position target := by
  rw [ofDeclaration, ofDeclaration, Declaration.kind_withoutHidden]
  cases d.kind with
  | typeAlias => rfl
  | enumeration => rfl
  | moduleClass => exact ofClass_withoutHidden d position target
  | ordinaryClass => exact ofClass_withoutHidden d position target

end Member

/-! ## Modules -/

namespace Module

/-- The module without the hidden properties of its declarations. -/
def withoutHidden (m : Module) : Module :=
  { m with declarations := m.declarations.map Declaration.withoutHidden }

variable (m : Module)

theorem moduleClass?_withoutHidden :
    m.withoutHidden.moduleClass? = m.moduleClass?.map Declaration.withoutHidden := by
  rw [moduleClass?, withoutHidden, List.find?_map]
  rfl

theorem space_withoutHidden (bindings : BindingTable) :
    m.withoutHidden.space bindings = m.space bindings := by
  rw [space, space, moduleClass?_withoutHidden]
  cases m.moduleClass? <;> rfl

theorem claim_withoutHidden (bindings : BindingTable) (options : Options) (earlier : List Claim) :
    m.withoutHidden.claim bindings options earlier = m.claim bindings options earlier := by
  rw [claim, claim, space_withoutHidden]
  rfl

theorem generatedNote_withoutHidden (document : Document) :
    m.withoutHidden.generatedNote document = m.generatedNote document := by
  rw [generatedNote, generatedNote, moduleClass?_withoutHidden]
  cases m.moduleClass? <;> rfl

theorem members_withoutHidden (target : Target) :
    m.withoutHidden.members target = m.members target := by
  rw [members, members, withoutHidden, List.zipIdx_map, List.mapM_map]
  exact congrArg (fun f => m.declarations.zipIdx.mapM f)
    (funext fun (d, position) => Member.ofDeclaration_withoutHidden d position target)

theorem orderedMembers_withoutHidden (target : Target) :
    m.withoutHidden.orderedMembers target = m.orderedMembers target := by
  have hplaces : m.withoutHidden.declarations.forM (m.withoutHidden.checkPlace target) =
      m.declarations.forM (m.checkPlace target) := by
    rw [withoutHidden, List.forM_eq_forM, List.forM_map]
    rfl
  have hclass : m.withoutHidden.checkModuleClass = m.checkModuleClass := by
    rw [checkModuleClass, checkModuleClass, withoutHidden, List.countP_map]
    rfl
  rw [orderedMembers, orderedMembers, hplaces, hclass, members_withoutHidden]

theorem document_withoutHidden (target : Target) (header : List String) :
    m.withoutHidden.document target header = m.document target header := by
  rw [document, document, orderedMembers_withoutHidden, moduleClass?_withoutHidden]
  cases m.moduleClass? <;> rfl

variable {m m' : Module}

theorem name_eq_of_withoutHidden_eq (h : m.withoutHidden = m'.withoutHidden) :
    m.name = m'.name := by
  simpa [withoutHidden] using congrArg Module.name h

theorem claim_eq_of_withoutHidden_eq (h : m.withoutHidden = m'.withoutHidden)
    (bindings : BindingTable) (options : Options) (earlier : List Claim) :
    m.claim bindings options earlier = m'.claim bindings options earlier := by
  rw [← claim_withoutHidden m, h, claim_withoutHidden]

theorem document_eq_of_withoutHidden_eq (h : m.withoutHidden = m'.withoutHidden)
    (target : Target) (header : List String) :
    m.document target header = m'.document target header := by
  rw [← document_withoutHidden m, h, document_withoutHidden]

theorem header_eq_of_withoutHidden_eq (h : m.withoutHidden = m'.withoutHidden)
    (options : Options) : m.header options = m'.header options := by
  rw [header, header, name_eq_of_withoutHidden_eq h]

theorem generatedNote_eq_of_withoutHidden_eq (h : m.withoutHidden = m'.withoutHidden)
    (document : Document) : m.generatedNote document = m'.generatedNote document := by
  rw [← generatedNote_withoutHidden m, h, generatedNote_withoutHidden]

end Module

/-! ## Schemas -/

namespace Schema

/-- The schema without the hidden properties of its declarations. -/
def withoutHidden (schema : Schema) : Schema :=
  { schema with modules := schema.modules.map Module.withoutHidden }

/-- The remarks that are made on modules: for each module the warnings about its hidden
properties, and behind them those of `others`. -/
def remarksWith (others : List Diagnostics) (ms : List Module) : Diagnostics :=
  (List.zipWith (fun m remarks => m.hiddenWarnings ++ remarks) ms others).flatten

@[simp] theorem remarksWith_nil (ms : List Module) : remarksWith [] ms = [] := by
  simp [remarksWith]

@[simp] theorem remarksWith_cons (remarks : Diagnostics) (others : List Diagnostics) (m : Module)
    (ms : List Module) : remarksWith (remarks :: others) (m :: ms) =
      m.hiddenWarnings ++ (remarks ++ remarksWith others ms) := by
  simp [remarksWith]

/-- Remarks on at most `count` modules, all of them notes. -/
structure AreNotes (others : List Diagnostics) (count : Nat) : Prop where
  length_le : others.length ≤ count
  severity_eq : ∀ remarks ∈ others, ∀ remark ∈ remarks, remark.severity = .note

theorem AreNotes.nil (count : Nat) : AreNotes [] count :=
  ⟨Nat.zero_le _, by simp⟩

theorem AreNotes.cons {others : List Diagnostics} {count : Nat} {remarks : Diagnostics}
    (hremarks : ∀ remark ∈ remarks, remark.severity = .note) (h : AreNotes others count) :
    AreNotes (remarks :: others) (count + 1) :=
  ⟨Nat.succ_le_succ h.length_le, List.forall_mem_cons.2 ⟨hremarks, h.severity_eq⟩⟩

/-- Of modules that are equal without their hidden properties the runs give the same, and their
remarks differ in the warnings alone. -/
theorem run_documentsFrom_of_withoutHidden_eq {bindings : BindingTable} {options : Options}
    {ms ms' : List Module} (h : ms.map Module.withoutHidden = ms'.map Module.withoutHidden)
    (earlier : List Claim) (ds ds' : Diagnostics) :
    ∃ result others, AreNotes others ms.length ∧
      (documentsFrom bindings options earlier ms).run.run ds =
        (result, ds ++ remarksWith others ms) ∧
      (documentsFrom bindings options earlier ms').run.run ds' =
        (result, ds' ++ remarksWith others ms') := by
  induction ms generalizing ms' earlier ds ds' with
  | nil =>
      obtain rfl : ms' = [] := by simpa using h.symm
      refine ⟨.ok [], [], .nil _, ?_, ?_⟩
      · rw [remarksWith_nil, List.append_nil]
        rfl
      · rw [remarksWith_nil, List.append_nil]
        rfl
  | cons m ms ih =>
      obtain ⟨m', ms', rfl, hm, hms⟩ : ∃ m' rest, ms' = m' :: rest ∧
          m'.withoutHidden = m.withoutHidden ∧
            rest.map Module.withoutHidden = ms.map Module.withoutHidden := by
        simpa [List.map_eq_cons_iff] using h.symm
      rw [run_documentsFrom_cons, run_documentsFrom_cons, Module.claim_eq_of_withoutHidden_eq hm]
      cases m.claim bindings options earlier with
      | error e => exact ⟨.error e, [], .nil _, by simp, by simp⟩
      | ok claim =>
          simp only [Module.document_eq_of_withoutHidden_eq hm,
            Module.header_eq_of_withoutHidden_eq hm, Module.generatedNote_eq_of_withoutHidden_eq hm]
          cases m.document (Module.target bindings options claim.space) (m.header options) with
          | error e => exact ⟨.error e, [[]], .cons (by simp) (.nil _), by simp, by simp⟩
          | ok document =>
              obtain ⟨result, others, hnotes, hrun, hrun'⟩ := ih hms.symm (earlier ++ [claim])
                (ds ++ m.hiddenWarnings ++ [m.generatedNote document])
                (ds' ++ m'.hiddenWarnings ++ [m.generatedNote document])
              simp only [hrun, hrun']
              have hothers : AreNotes ([m.generatedNote document] :: others) (ms.length + 1) :=
                .cons (by simp [Module.generatedNote]) hnotes
              cases result with
              | error e => exact ⟨.error e, _, hothers, by simp, by simp⟩
              | ok documents => exact ⟨.ok (document :: documents), _, hothers, by simp, by simp⟩

/-- Schemas that are equal without their hidden properties have the same documents, or fail with
the same error. The remarks on them are the same notes, between warnings about the hidden
properties of each. -/
theorem generate_eq_of_withoutHidden_eq {schema schema' : Schema}
    (h : schema.withoutHidden = schema'.withoutHidden) (options : Options) (ds : Diagnostics) :
    ∃ result others, AreNotes others schema.modules.length ∧
      (schema.generate options).run.run ds =
        (result, ds ++ remarksWith others schema.modules) ∧
      (schema'.generate options).run.run ds =
        (result, ds ++ remarksWith others schema'.modules) := by
  have hmodules : schema.modules.map Module.withoutHidden =
      schema'.modules.map Module.withoutHidden := congrArg Schema.modules h
  have hbindings : schema.bindings = schema'.bindings := by
    simpa [withoutHidden] using congrArg Schema.bindings h
  rw [generate, generate, ← hbindings]
  by_cases hsuffix : options.fileSuffix = ""
  · simp only [if_pos hsuffix]
    refine ⟨.error .emptySuffix, [], .nil _, ?_, ?_⟩
    · rw [remarksWith_nil, List.append_nil]
      rfl
    · rw [remarksWith_nil, List.append_nil]
      rfl
  · simp only [if_neg hsuffix]
    exact run_documentsFrom_of_withoutHidden_eq hmodules [] ds ds

/-! ## A schema with hidden properties -/

/-- A schema with one visible property, and with whatever hidden properties are given before and
behind it. -/
def veiledSchema (before behind : List Property) : Schema where
  modules := [
    { name := "m"
      declarations := [
        { kind := .moduleClass, name := "M", moduleName := "m",
          properties := before ++
            [{ name := "size", type := .primitive {} .int }] ++ behind }] }]
  bindings := ⟨[{ kind := .moduleClass, source := "m", space := "m", name := "ModuleClass" }]⟩

/-- Hidden properties that could not be visible: one has the field of the visible property and no
type, another the field of the registration and a type without a counterpart. -/
theorem generate_eq_of_withoutHidden_eq_veiledSchema :
    let veiled := veiledSchema [{ name := "size", hidden := true }]
      [{ name := "_registered_identifier", hidden := true, type := .unsupported {} "nothing" }]
    let bare := veiledSchema [] []
    veiled.withoutHidden = bare.withoutHidden ∧
      ∃ result others, AreNotes others veiled.modules.length ∧
        (veiled.generate {}).run.run [] = (result, [] ++ remarksWith others veiled.modules) ∧
        (bare.generate {}).run.run [] = (result, [] ++ remarksWith others bare.modules) := by
  intro veiled bare
  have hsame : veiled.withoutHidden = bare.withoutHidden := rfl
  exact ⟨hsame, generate_eq_of_withoutHidden_eq hsame {} []⟩

end Schema

end PklBindings
