import Mathlib.Data.List.Forall2
import PklBindings.Generation
import PklBindings.Proofs.Members

/-!
# What generation does

The run of `Schema.generate` laid open: it takes the modules one after another, and each of them
goes through `Written` on its way to a document (`forall₂_written_of_generate`). When it succeeds
can be said without the order in which the modules are taken: every module has a document of its
own, and no two documents have one namespace or one file (`run_generate_eq_ok_iff_ownDocument`).
-/

namespace PklBindings

/-- `Written bindings options m document members`: under the options, the module `m` is written
as `document`, which shows `members` in this order. -/
structure Written (bindings : BindingTable) (options : Options) (m : Module)
    (document : Document) (members : List Member) : Prop where
  space_eq : m.space bindings = .ok document.space
  members_eq : m.orderedMembers (Module.target bindings options document.space) = .ok members
  document_eq : Document.ofMembers (Module.target bindings options document.space)
    (m.header options) m.name ((m.moduleClass?.map (·.name)).getD "") members = .ok document

theorem Document.ofMembers_eq_ok_iff {target : Target} {header : List String}
    {moduleName className : String} {members : List Member} {document : Document} :
    Document.ofMembers target header moduleName className members = .ok document ↔
      Document.endsWithModuleClass members = true ∧ document =
        { space := target.space
          fileName := ModuleName.fileName target.space target.fileSuffix
          text := (Document.block header (moduleName ++ "." ++ className) members).render
            target.indentUnit } := by
  rw [Document.ofMembers]
  split
  · rename_i hends
    simp [hends, eq_comm]
  · rename_i hends
    simp [hends]

theorem Written.fileName_eq {bindings : BindingTable} {options : Options} {m : Module}
    {document : Document} {members : List Member}
    (h : Written bindings options m document members) :
    document.fileName = ModuleName.importName document.space options.fileSuffix ++ ".py" := by
  rw [(Document.ofMembers_eq_ok_iff.1 h.document_eq).2]
  rfl

theorem Module.document_eq_ok_iff {m : Module} {target : Target} {header : List String}
    {document : Document} :
    m.document target header = .ok document ↔ ∃ members, m.orderedMembers target = .ok members ∧
      Document.ofMembers target header m.name ((m.moduleClass?.map (·.name)).getD "") members =
        .ok document := by
  rw [Module.document]
  exact bind_eq_ok_iff

/-- The document of a module, whatever other modules there are. -/
def Module.ownDocument (m : Module) (bindings : BindingTable) (options : Options) :
    Except GenerationError Document := do
  let space ← m.space bindings
  m.document (Module.target bindings options space) (m.header options)

theorem Module.ownDocument_eq_ok_iff {m : Module} {bindings : BindingTable} {options : Options}
    {document : Document} :
    m.ownDocument bindings options = .ok document ↔
      ∃ members, Written bindings options m document members := by
  rw [ownDocument, bind_eq_ok_iff]
  constructor
  · rintro ⟨space, hspace, hdocument⟩
    obtain ⟨members, hmembers, hof⟩ := document_eq_ok_iff.1 hdocument
    obtain rfl : document.space = space := by
      rw [(Document.ofMembers_eq_ok_iff.1 hof).2]
      rfl
    exact ⟨members, hspace, hmembers, hof⟩
  · rintro ⟨members, hspace, hmembers, hof⟩
    exact ⟨document.space, hspace, document_eq_ok_iff.2 ⟨members, hmembers, hof⟩⟩

/-- A module gets what it claims exactly when its namespace is known and neither the namespace nor
its file is taken. -/
theorem Module.claim_eq_ok_iff {m : Module} {bindings : BindingTable} {options : Options}
    {earlier : List Claim} {claim : Claim} :
    m.claim bindings options earlier = .ok claim ↔
      m.space bindings = .ok claim.space ∧
        claim.fileName = ModuleName.fileName claim.space options.fileSuffix ∧
        claim.moduleName = m.name ∧ (∀ c ∈ earlier, c.space ≠ claim.space) ∧
        ∀ c ∈ earlier, c.fileName ≠ claim.fileName := by
  rw [Module.claim, bind_eq_ok_iff]
  constructor
  · rintro ⟨space, hspace, hrest⟩
    simp only at hrest
    split at hrest
    · simp at hrest
    · rename_i hfreeSpace
      split at hrest
      · simp at hrest
      · rename_i hfreeFile
        simp only [Except.ok.injEq] at hrest
        subst hrest
        simp only [List.find?_eq_none, decide_eq_true_eq] at hfreeSpace hfreeFile
        exact ⟨hspace, rfl, rfl, hfreeSpace, hfreeFile⟩
  · rintro ⟨hspace, hfile, hname, hfreeSpace, hfreeFile⟩
    have hspaces : earlier.find? (·.space = claim.space) = none := by
      simpa [List.find?_eq_none] using hfreeSpace
    have hfiles : earlier.find? (·.fileName = claim.fileName) = none := by
      simpa [List.find?_eq_none] using hfreeFile
    refine ⟨claim.space, hspace, ?_⟩
    simp only [hspaces, ← hfile, hfiles, ← hname]

/-- What is remarked on a module that has a document: on each hidden property, and at last on the
document. -/
def Module.entry (m : Module) (document : Document) : Diagnostics :=
  m.hiddenWarnings ++ [m.generatedNote document]

/-- What a module with a document has taken for itself. -/
def Document.claimFor (document : Document) (m : Module) : Claim :=
  ⟨document.space, document.fileName, m.name⟩

theorem Module.eq_claimFor {m : Module} {bindings : BindingTable} {options : Options}
    {earlier : List Claim} {claim : Claim} {document : Document}
    (hclaim : m.claim bindings options earlier = .ok claim)
    (hdocument : m.document (Module.target bindings options claim.space) (m.header options) =
      .ok document) : claim = document.claimFor m := by
  obtain ⟨-, hfile, hname, -⟩ := claim_eq_ok_iff.1 hclaim
  obtain ⟨members, -, hof⟩ := document_eq_ok_iff.1 hdocument
  rw [Document.claimFor, (Document.ofMembers_eq_ok_iff.1 hof).2, ← hname]
  exact congrArg (Claim.mk claim.space · claim.moduleName) hfile

namespace Schema

variable {bindings : BindingTable} {options : Options}

@[simp] theorem run_report (ds added : Diagnostics) :
    (report added).run.run ds = (.ok (), ds ++ added) :=
  rfl

/-- How the run goes on from one module to the others. -/
theorem run_documentsFrom_cons (earlier : List Claim) (m : Module) (ms : List Module)
    (ds : Diagnostics) :
    (documentsFrom bindings options earlier (m :: ms)).run.run ds =
      match m.claim bindings options earlier with
      | .error e => (.error e, ds)
      | .ok claim =>
        match m.document (Module.target bindings options claim.space) (m.header options) with
        | .error e => (.error e, ds ++ m.hiddenWarnings)
        | .ok document =>
          match (documentsFrom bindings options (earlier ++ [claim]) ms).run.run
              (ds ++ m.hiddenWarnings ++ [m.generatedNote document]) with
          | (.error e, ds') => (.error e, ds')
          | (.ok documents, ds') => (.ok (document :: documents), ds') := by
  rw [documentsFrom, run_bind, run_liftExcept]
  cases m.claim bindings options earlier with
  | error e => rfl
  | ok claim =>
      -- Remarks are made whatever comes after them, and never end the run.
      simp only [run_bind, run_report, run_liftExcept]
      cases m.document (Module.target bindings options claim.space) (m.header options) with
      | error e => rfl
      | ok document =>
          simp only [run_pure]
          rcases (documentsFrom bindings options (earlier ++ [claim]) ms).run.run _ with
            ⟨_ | documents, ds'⟩ <;> rfl

/-- A run over modules succeeds exactly when the first module can be written and the run over the
others succeeds. -/
theorem run_documentsFrom_cons_eq_ok_iff {earlier : List Claim} {m : Module} {ms : List Module}
    {ds ds' : Diagnostics} {documents : List Document} :
    (documentsFrom bindings options earlier (m :: ms)).run.run ds = (.ok documents, ds') ↔
      ∃ claim document rest members, documents = document :: rest ∧
        m.claim bindings options earlier = .ok claim ∧ document.space = claim.space ∧
        Written bindings options m document members ∧
        (documentsFrom bindings options (earlier ++ [claim]) ms).run.run
          (ds ++ m.hiddenWarnings ++ [m.generatedNote document]) = (.ok rest, ds') := by
  rw [run_documentsFrom_cons]
  constructor
  · -- A refused claim, a refused document and an error further on all end the run.
    intro h
    cases hclaim : m.claim bindings options earlier with
    | error e =>
        rw [hclaim] at h
        cases h
    | ok claim =>
        simp only [hclaim] at h
        cases hdocument : m.document (Module.target bindings options claim.space)
            (m.header options) with
        | error e =>
            rw [hdocument] at h
            cases h
        | ok document =>
            simp only [hdocument] at h
            split at h
            · cases h
            · rename_i rest ds'' hrest
              cases h
              obtain ⟨members, hmembers, hof⟩ := Module.document_eq_ok_iff.1 hdocument
              have hspace : document.space = claim.space := by
                rw [(Document.ofMembers_eq_ok_iff.1 hof).2]
                rfl
              refine ⟨claim, document, rest, members, rfl, rfl, hspace, ⟨?_, ?_, ?_⟩, hrest⟩
              · rw [hspace]
                exact (Module.claim_eq_ok_iff.1 hclaim).1
              · rw [hspace]
                exact hmembers
              · rw [hspace]
                exact hof
  · -- The document is written for the namespace that is claimed.
    rintro ⟨claim, document, rest, members, rfl, hclaim, hspace, hwritten, hrest⟩
    have hdocument : m.document (Module.target bindings options claim.space)
        (m.header options) = .ok document := by
      rw [← hspace]
      exact Module.document_eq_ok_iff.2 ⟨members, hwritten.members_eq, hwritten.document_eq⟩
    simp only [hclaim, hdocument, hrest]

/-- The step of a run, with the document of the module in place of its claim. -/
theorem run_documentsFrom_cons_iff_ownDocument {earlier : List Claim} {m : Module}
    {ms : List Module} {ds ds' : Diagnostics} {documents : List Document} :
    (documentsFrom bindings options earlier (m :: ms)).run.run ds = (.ok documents, ds') ↔
      ∃ document rest, documents = document :: rest ∧
        m.ownDocument bindings options = .ok document ∧
        (∀ c ∈ earlier, c.space ≠ document.space ∧ c.fileName ≠ document.fileName) ∧
        (documentsFrom bindings options (earlier ++ [document.claimFor m]) ms).run.run
          (ds ++ m.entry document) = (.ok rest, ds') := by
  rw [run_documentsFrom_cons_eq_ok_iff]
  constructor
  · rintro ⟨claim, document, rest, members, rfl, hclaim, hspace, hwritten, hrest⟩
    obtain ⟨-, -, -, hfreeSpace, hfreeFile⟩ := Module.claim_eq_ok_iff.1 hclaim
    obtain rfl : claim = document.claimFor m := by
      refine Module.eq_claimFor hclaim (Module.document_eq_ok_iff.2 ⟨members, ?_⟩)
      rw [← hspace]
      exact ⟨hwritten.members_eq, hwritten.document_eq⟩
    refine ⟨document, rest, rfl, Module.ownDocument_eq_ok_iff.2 ⟨members, hwritten⟩,
      fun c hc => ⟨hfreeSpace c hc, hfreeFile c hc⟩, ?_⟩
    rw [Module.entry, ← List.append_assoc]
    exact hrest
  · rintro ⟨document, rest, rfl, hown, hfree, hrest⟩
    obtain ⟨members, hwritten⟩ := Module.ownDocument_eq_ok_iff.1 hown
    rw [Module.entry, ← List.append_assoc] at hrest
    refine ⟨document.claimFor m, document, rest, members, rfl, Module.claim_eq_ok_iff.2 ?_, rfl,
      hwritten, hrest⟩
    exact ⟨hwritten.space_eq, hwritten.fileName_eq, rfl, fun c hc => (hfree c hc).1,
      fun c hc => (hfree c hc).2⟩

/-- A run succeeds exactly when every module has a document of its own, and no two of these, nor one
of them and a claim made before, share a namespace or a file. -/
theorem run_documentsFrom_eq_ok_iff {earlier : List Claim} {ms : List Module}
    {ds ds' : Diagnostics} {documents : List Document} :
    (documentsFrom bindings options earlier ms).run.run ds = (.ok documents, ds') ↔
      List.Forall₂ (fun m document => m.ownDocument bindings options = .ok document) ms documents ∧
        documents.Pairwise (fun d d' => d.space ≠ d'.space ∧ d.fileName ≠ d'.fileName) ∧
        (∀ c ∈ earlier, ∀ d ∈ documents, c.space ≠ d.space ∧ c.fileName ≠ d.fileName) ∧
        ds' = ds ++ (List.zipWith Module.entry ms documents).flatten := by
  induction ms generalizing earlier ds documents with
  | nil =>
      constructor
      · intro h
        cases h
        simp
      · rintro ⟨hdocuments, -, -, rfl⟩
        cases hdocuments
        exact congrArg (Prod.mk _) (List.append_nil ds).symm
  | cons m ms ih =>
      rw [run_documentsFrom_cons_iff_ownDocument]
      constructor
      · rintro ⟨document, rest, rfl, hown, hfree, hrest⟩
        obtain ⟨hdocuments, hapart, hothers, rfl⟩ := ih.1 hrest
        refine ⟨.cons hown hdocuments, List.pairwise_cons.2 ⟨?_, hapart⟩, ?_, by simp⟩
        · exact hothers (document.claimFor m) (by simp)
        · intro c hc
          rw [List.forall_mem_cons]
          exact ⟨hfree c hc, hothers c (List.mem_append_left _ hc)⟩
      · rintro ⟨_ | ⟨hown, hdocuments⟩, hapart, hothers, rfl⟩
        rename_i document rest
        rw [List.pairwise_cons] at hapart
        refine ⟨document, rest, rfl, hown, fun c hc => hothers c hc _ List.mem_cons_self, ?_⟩
        refine ih.2 ⟨hdocuments, hapart.2, ?_, by simp⟩
        rw [List.forall_mem_append, List.forall_mem_singleton]
        exact ⟨fun c hc d hd => hothers c hc d (List.mem_cons_of_mem _ hd), hapart.1⟩

variable {schema : Schema}

theorem run_generate_eq_ok_iff {ds ds' : Diagnostics} {documents : List Document} :
    (schema.generate options).run.run ds = (.ok documents, ds') ↔
      options.fileSuffix ≠ "" ∧
        (documentsFrom schema.bindings options [] schema.modules).run.run ds =
          (.ok documents, ds') := by
  rw [generate]
  by_cases hsuffix : options.fileSuffix = ""
  · rw [if_pos hsuffix]
    constructor
    · intro h
      cases h
    · rintro ⟨hne, -⟩
      exact absurd hsuffix hne
  · rw [if_neg hsuffix]
    exact ⟨fun h => ⟨hsuffix, h⟩, fun h => h.2⟩

/-- A schema is generated exactly when there is a suffix, every module has a document of its own,
and no two of these share a namespace or a file. -/
theorem run_generate_eq_ok_iff_ownDocument {ds ds' : Diagnostics} {documents : List Document} :
    (schema.generate options).run.run ds = (.ok documents, ds') ↔
      options.fileSuffix ≠ "" ∧
        List.Forall₂ (fun m document => m.ownDocument schema.bindings options = .ok document)
          schema.modules documents ∧
        (documents.map (·.space)).Nodup ∧ (documents.map (·.fileName)).Nodup ∧
        ds' = ds ++ (List.zipWith Module.entry schema.modules documents).flatten := by
  have hapart : documents.Pairwise (fun d d' => d.space ≠ d'.space ∧ d.fileName ≠ d'.fileName) ↔
      (documents.map (·.space)).Nodup ∧ (documents.map (·.fileName)).Nodup := by
    rw [List.nodup_iff_pairwise_ne, List.nodup_iff_pairwise_ne, List.pairwise_map,
      List.pairwise_map, List.pairwise_and_iff]
  rw [run_generate_eq_ok_iff, run_documentsFrom_eq_ok_iff, hapart, and_assoc]
  simp

/-- The documents of a schema are those of its modules, in order. -/
theorem forall₂_written_of_generate {ds ds' : Diagnostics} {documents : List Document}
    (h : (schema.generate options).run.run ds = (.ok documents, ds')) :
    List.Forall₂ (fun m document => ∃ members, Written schema.bindings options m document members)
      schema.modules documents :=
  (run_generate_eq_ok_iff_ownDocument.1 h).2.1.imp fun _ _ => Module.ownDocument_eq_ok_iff.1

/-- A document goes to the file of its namespace. -/
theorem fileName_of_generate {ds ds' : Diagnostics} {documents : List Document}
    (h : (schema.generate options).run.run ds = (.ok documents, ds')) :
    ∀ d ∈ documents, d.fileName = ModuleName.fileName d.space options.fileSuffix := by
  intro d hd
  obtain ⟨m, -, members, hwritten⟩ :=
    exists_mem_zip_of_mem_right (forall₂_written_of_generate h) hd
  exact hwritten.fileName_eq

theorem spaces_nodup_of_generate {ds ds' : Diagnostics} {documents : List Document}
    (h : (schema.generate options).run.run ds = (.ok documents, ds')) :
    (documents.map (·.space)).Nodup :=
  (run_generate_eq_ok_iff_ownDocument.1 h).2.2.1

theorem fileNames_nodup_of_generate {ds ds' : Diagnostics} {documents : List Document}
    (h : (schema.generate options).run.run ds = (.ok documents, ds')) :
    (documents.map (·.fileName)).Nodup :=
  (run_generate_eq_ok_iff_ownDocument.1 h).2.2.2.1

end Schema

/-! ## The members of a module -/

/-- What a module has passed when it has members in order. -/
structure Module.Arranged (m : Module) (target : Target) (members : List Member) : Prop where
  bound : ∀ d ∈ m.declarations, ∃ b, target.bindings.find? d.qualifiedName = some b ∧
    b.space = target.space
  moduleClass_count : m.declarations.countP (·.kind = .moduleClass) = 1
  no_collisions : Collision.inSpace target.bindings target.space = []
  exists_made : ∃ made, m.members target = .ok made ∧ Member.ordered made = .ok members

theorem Module.checkPlace_eq_ok_iff {m : Module} {target : Target} {d : Declaration} :
    m.checkPlace target d = .ok () ↔
      ∃ b, target.bindings.find? d.qualifiedName = some b ∧ b.space = target.space := by
  rw [Module.checkPlace, bind_eq_ok_iff]
  refine exists_congr fun b => ?_
  rw [Declaration.bindingFor_eq_ok_iff]
  refine and_congr_right fun _ => ?_
  by_cases hforeign : b.space = target.space <;> simp [Target.isForeign, hforeign]

theorem Module.checkModuleClass_eq_ok_iff {m : Module} :
    m.checkModuleClass = .ok () ↔ m.declarations.countP (·.kind = .moduleClass) = 1 := by
  rw [Module.checkModuleClass]
  by_cases hone : m.declarations.countP (·.kind = .moduleClass) = 1 <;> simp [hone]

theorem Module.checkCollisions_eq_ok_iff {target : Target} :
    Module.checkCollisions target = .ok () ↔
      Collision.inSpace target.bindings target.space = [] := by
  rw [Module.checkCollisions]
  split
  · rename_i hnil
    simp [hnil]
  · rename_i hne
    simpa using hne

/-- A module has ordered members exactly when it passes all that is asked of it. -/
theorem Module.orderedMembers_eq_ok_iff {m : Module} {target : Target} {members : List Member} :
    m.orderedMembers target = .ok members ↔ m.Arranged target members := by
  simp only [Module.orderedMembers, bind_eq_ok_iff, mapError_eq_ok_iff]
  constructor
  · rintro ⟨_, hplaces, _, hclass, _, hcollisions, made, hmade, hordered⟩
    refine ⟨fun d hd => ?_, checkModuleClass_eq_ok_iff.1 hclass,
      checkCollisions_eq_ok_iff.1 hcollisions, made, hmade, hordered⟩
    exact checkPlace_eq_ok_iff.1 (forM_eq_ok_iff.1 hplaces d hd)
  · rintro ⟨hbound, hcount, hcollisions, made, hmade, hordered⟩
    refine ⟨(), ?_, (), checkModuleClass_eq_ok_iff.2 hcount, (),
      checkCollisions_eq_ok_iff.2 hcollisions, made, hmade, hordered⟩
    exact forM_eq_ok_iff.2 fun d hd => checkPlace_eq_ok_iff.2 (hbound d hd)

/-- A module whose members end with its module class can be written. -/
theorem Written.exists_of_arranged {bindings : BindingTable} {options : Options} {m : Module}
    {space : String} {members : List Member} (hspace : m.space bindings = .ok space)
    (harranged : m.Arranged (Module.target bindings options space) members)
    (hends : Document.endsWithModuleClass members = true) :
    ∃ document : Document, document.space = space ∧
      Written bindings options m document members := by
  obtain ⟨document, hdocument, hof⟩ : ∃ document : Document, document.space = space ∧
      Document.ofMembers (Module.target bindings options space) (m.header options) m.name
        ((m.moduleClass?.map (·.name)).getD "") members = .ok document :=
    ⟨_, rfl, Document.ofMembers_eq_ok_iff.2 ⟨hends, rfl⟩⟩
  subst hdocument
  exact ⟨document, rfl, hspace, Module.orderedMembers_eq_ok_iff.2 harranged, hof⟩

/-- The members of a module stem from its declarations, one from each. -/
theorem Module.forall₂_stems_of_members {m : Module} {target : Target} {made : List Member}
    (h : m.members target = .ok made) :
    List.Forall₂ (fun e member => Member.Stems e.1 e.2 target member) m.declarations.zipIdx
      made :=
  (mapM_eq_ok_iff.1 h).imp fun _ _ hmember => Member.stems_of_ofDeclaration hmember

/-- Members have the kinds and keys of their declarations, in the same order. -/
theorem Module.map_kind_key_of_members {m : Module} {target : Target} {made : List Member}
    (h : m.members target = .ok made) :
    m.declarations.map (fun d => (d.kind, d.qualifiedName)) =
      made.map fun member => (member.kind, member.key) := by
  calc m.declarations.map (fun d => (d.kind, d.qualifiedName))
      = (m.declarations.zipIdx.map Prod.fst).map (fun d => (d.kind, d.qualifiedName)) := by
        rw [List.zipIdx_map_fst]
    _ = m.declarations.zipIdx.map (fun e => (e.1.kind, e.1.qualifiedName)) := by
        rw [List.map_map]
        rfl
    _ = made.map fun member => (member.kind, member.key) := by
        rw [← List.forall₂_eq_eq_eq, List.forall₂_map_left_iff, List.forall₂_map_right_iff]
        exact (forall₂_stems_of_members h).imp fun _ _ hstems => by
          rw [hstems.kind_eq, hstems.key_eq]

end PklBindings
