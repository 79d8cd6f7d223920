import PklBindings.Proofs.Generation

/-!
# The remarks of a generation

What a generation adds to the remarks made before it. For every module that has got its document
there is an entry: a warning on each hidden property, and behind them a note (`Module.IsEntry`). If
the generation stops at a module, the entries of the modules before it are there, and the warnings
about this module if it was free to go to its namespace and its file (`Schema.Account`). A run is
always accounted for in this way, and no remark is an error (`Schema.generate_accounts`).
-/

namespace PklBindings

/-- One warning for each of the properties, where the property stands. -/
def AreWarnings (ps : List Property) (remarks : Diagnostics) : Prop :=
  List.Forall₂ (fun p remark => remark.severity = .warning ∧ remark.location = p.location) ps
    remarks

namespace Module

variable {m : Module} {bindings : BindingTable} {options : Options}

/-- The hidden properties of a module, declaration by declaration and in the order of each. -/
def hiddenProperties (m : Module) : List Property :=
  m.declarations.flatMap Declaration.hiddenProperties

/-- The remarks are all that is said of a module with a document: the warnings about its hidden
properties, and then one note where the module class stands. -/
def IsEntry (m : Module) (remarks : Diagnostics) : Prop :=
  ∃ warnings note d, remarks = warnings ++ [note] ∧ AreWarnings m.hiddenProperties warnings ∧
    m.moduleClass? = some d ∧ note.severity = .note ∧ note.location = d.location

/-- The module has a namespace, and neither the namespace nor the file that belongs to it is among
those that are taken. -/
def IsFree (m : Module) (bindings : BindingTable) (options : Options) (spaces files : List String) :
    Prop :=
  ∃ space, m.space bindings = .ok space ∧ space ∉ spaces ∧
    ModuleName.fileName space options.fileSuffix ∉ files

theorem areWarnings_hiddenWarnings (m : Module) :
    AreWarnings m.hiddenProperties m.hiddenWarnings := by
  rw [hiddenProperties, hiddenWarnings]
  induction m.declarations with
  | nil => exact .nil
  | cons d ds ih =>
      rw [List.flatMap_cons, List.flatMap_cons]
      refine List.rel_append ?_ ih
      rw [List.forall₂_map_right_iff, List.forall₂_same]
      exact fun p _ => ⟨rfl, rfl⟩

theorem isEntry_entry {space : String} (hspace : m.space bindings = .ok space)
    (document : Document) : m.IsEntry (m.entry document) := by
  rw [Module.space] at hspace
  cases hclass : m.moduleClass? with
  | none =>
      rw [hclass] at hspace
      cases hspace
  | some d =>
      refine ⟨m.hiddenWarnings, m.generatedNote document, d, rfl, m.areWarnings_hiddenWarnings,
        hclass, rfl, ?_⟩
      rw [generatedNote, hclass]
      rfl

/-- A module is free exactly when it gets what it claims. -/
theorem isFree_iff_exists_claim {earlier : List Claim} :
    m.IsFree bindings options (earlier.map (·.space)) (earlier.map (·.fileName)) ↔
      ∃ claim, m.claim bindings options earlier = .ok claim := by
  simp only [IsFree, List.mem_map, not_exists, not_and]
  constructor
  · rintro ⟨space, hspace, hspaces, hfiles⟩
    exact ⟨⟨space, _, m.name⟩, claim_eq_ok_iff.2 ⟨hspace, rfl, rfl, hspaces, hfiles⟩⟩
  · rintro ⟨claim, hclaim⟩
    obtain ⟨hspace, hfile, -, hspaces, hfiles⟩ := claim_eq_ok_iff.1 hclaim
    exact ⟨claim.space, hspace, hspaces, hfile ▸ hfiles⟩

end Module

namespace AreWarnings

variable {ps : List Property} {remarks : Diagnostics}

theorem severity_ne_error (h : AreWarnings ps remarks) :
    ∀ remark ∈ remarks, remark.severity ≠ .error := by
  intro remark hremark
  obtain ⟨p, -, hseverity, -⟩ := exists_mem_zip_of_mem_right h hremark
  simp [hseverity]

end AreWarnings

theorem Module.IsEntry.severity_ne_error {m : Module} {remarks : Diagnostics}
    (h : m.IsEntry remarks) : ∀ remark ∈ remarks, remark.severity ≠ .error := by
  obtain ⟨warnings, note, d, rfl, hwarnings, -, hnote, -⟩ := h
  rw [List.forall_mem_append, List.forall_mem_singleton]
  exact ⟨hwarnings.severity_ne_error, by simp [hnote]⟩

namespace Schema

/-! ## Runs that stop -/

section Stop

variable {bindings : BindingTable} {options : Options}

/-- What a run over modules does at the first of them. It stops there if the module is not free, and
says nothing of it; or the module is free and has no document, and the run stops behind the
warnings; or the module gets its document, and the run goes on over the others behind the entry. -/
theorem documentsFrom_step_cases (bindings : BindingTable) (options : Options)
    (earlier : List Claim) (m : Module) :
    (¬ m.IsFree bindings options (earlier.map (·.space)) (earlier.map (·.fileName)) ∧
        ∃ e, ∀ ms ds, (documentsFrom bindings options earlier (m :: ms)).run.run ds =
          (.error e, ds)) ∨
      (m.IsFree bindings options (earlier.map (·.space)) (earlier.map (·.fileName)) ∧
        ∃ e, ∀ ms ds, (documentsFrom bindings options earlier (m :: ms)).run.run ds =
          (.error e, ds ++ m.hiddenWarnings)) ∨
      ∃ document : Document, ∀ ms ds,
        (documentsFrom bindings options earlier (m :: ms)).run.run ds =
          match (documentsFrom bindings options (earlier ++ [document.claimFor m]) ms).run.run
              (ds ++ m.entry document) with
          | (.error e, ds') => (.error e, ds')
          | (.ok documents, ds') => (.ok (document :: documents), ds') := by
  rw [Module.isFree_iff_exists_claim]
  simp only [run_documentsFrom_cons]
  cases hclaim : m.claim bindings options earlier with
  | error e => exact .inl ⟨by simp, e, fun _ _ => rfl⟩
  | ok claim =>
      cases hdocument : m.document (Module.target bindings options claim.space)
          (m.header options) with
      | error e =>
          refine .inr (.inl ⟨⟨claim, rfl⟩, e, fun ms ds => ?_⟩)
          simp only [hdocument]
      | ok document =>
          refine .inr (.inr ⟨document, fun ms ds => ?_⟩)
          have hentry : ds ++ m.hiddenWarnings ++ [m.generatedNote document] =
              ds ++ m.entry document := by
            rw [Module.entry, List.append_assoc]
          obtain rfl := Module.eq_claimFor hclaim hdocument
          simp only [hdocument]
          exact hentry ▸ rfl

/-- Where a run over modules stops. The modules before this one have their documents, and there is
nothing behind their remarks but the warnings about this module, if it is free. -/
theorem exists_stop_of_documentsFrom {earlier : List Claim} {ms : List Module}
    {ds ds' : Diagnostics} {e : GenerationError}
    (h : (documentsFrom bindings options earlier ms).run.run ds = (.error e, ds')) :
    ∃ before m after documents reported warnings, ms = before ++ m :: after ∧
      (documentsFrom bindings options earlier before).run.run ds = (.ok documents, reported) ∧
      (documentsFrom bindings options earlier (before ++ [m])).run.run ds =
        (.error e, reported ++ warnings) ∧
      ds' = reported ++ warnings ∧
      (m.IsFree bindings options (earlier.map (·.space) ++ documents.map (·.space))
          (earlier.map (·.fileName) ++ documents.map (·.fileName)) →
        AreWarnings m.hiddenProperties warnings) ∧
      (¬ m.IsFree bindings options (earlier.map (·.space) ++ documents.map (·.space))
          (earlier.map (·.fileName) ++ documents.map (·.fileName)) →
        warnings = []) := by
  induction ms generalizing earlier ds with
  | nil => cases h
  | cons m ms ih =>
      obtain ⟨htaken, e', hstep⟩ | ⟨hfree, e', hstep⟩ | ⟨document, hstep⟩ :=
        documentsFrom_step_cases bindings options earlier m
      · cases (hstep ms ds).symm.trans h
        refine ⟨[], m, ms, [], ds', [], rfl, rfl, ?_, by simp, ?_, fun _ => rfl⟩
        · rw [List.nil_append, hstep, List.append_nil]
        · simpa using fun hfree => absurd hfree htaken
      · cases (hstep ms ds).symm.trans h
        refine ⟨[], m, ms, [], ds, m.hiddenWarnings, rfl, rfl, hstep [] ds, rfl,
          fun _ => m.areWarnings_hiddenWarnings, ?_⟩
        simpa using fun htaken => absurd hfree htaken
      · rw [hstep] at h
        split at h
        · rename_i hrest
          cases h
          obtain ⟨before, m', after, documents, reported, warnings, rfl, hbefore, hstop, hds, hfree,
            htaken⟩ := ih hrest
          refine ⟨m :: before, m', after, document :: documents, reported, warnings, rfl, ?_, ?_,
            hds, ?_, ?_⟩
          · rw [hstep, hbefore]
          · rw [List.cons_append, hstep, hstop]
          · simpa [Document.claimFor] using hfree
          · simpa [Document.claimFor] using htaken
        · cases h

end Stop

/-! ## Accounts -/

/-- `Account schema options ds result added`: the remarks `added` belong to a generation that ends
with `result`, where `ds` are the remarks made before. -/
inductive Account (schema : Schema) (options : Options) (ds : Diagnostics) :
    Except GenerationError (List Document) → Diagnostics → Prop where
  /-- Every module has a document of its own, in order, and every document has its own namespace and
  file. There is an entry for each module. -/
  | done {documents : List Document} {entries : List Diagnostics}
      (documents_own : List.Forall₂
        (fun m document => m.ownDocument schema.bindings options = .ok document) schema.modules
        documents)
      (spaces_nodup : (documents.map (·.space)).Nodup)
      (fileNames_nodup : (documents.map (·.fileName)).Nodup)
      (entries_are : List.Forall₂ Module.IsEntry schema.modules entries) :
      Account schema options ds (.ok documents) entries.flatten
  /-- The generation goes well over the modules `before` and fails at `m`. There is an entry for
  each module before, and the warnings about `m` are there exactly when `m` is free to go where it
  is to be written. -/
  | stopped {before after : List Module} {m : Module} {documents : List Document}
      {entries : List Diagnostics} {warnings : Diagnostics} {e : GenerationError}
      (modules_eq : schema.modules = before ++ m :: after)
      (run_before : ({ schema with modules := before }.generate options).run.run ds =
        (.ok documents, ds ++ entries.flatten))
      (run_stopped : ({ schema with modules := before ++ [m] }.generate options).run.run ds =
        (.error e, ds ++ (entries.flatten ++ warnings)))
      (entries_are : List.Forall₂ Module.IsEntry before entries)
      (warnings_of_free : m.IsFree schema.bindings options (documents.map (·.space))
        (documents.map (·.fileName)) → AreWarnings m.hiddenProperties warnings)
      (warnings_of_taken : ¬ m.IsFree schema.bindings options (documents.map (·.space))
        (documents.map (·.fileName)) → warnings = []) :
      Account schema options ds (.error e) (entries.flatten ++ warnings)

variable {schema : Schema} {options : Options} {ds : Diagnostics}

/-- Modules that have documents have their entries. -/
theorem forall₂_isEntry {bindings : BindingTable} {ms : List Module} {documents : List Document}
    (h : List.Forall₂ (fun m document => m.ownDocument bindings options = .ok document) ms
      documents) : List.Forall₂ Module.IsEntry ms (List.zipWith Module.entry ms documents) := by
  induction h with
  | nil => exact .nil
  | cons hown _ ih =>
      obtain ⟨members, hwritten⟩ := Module.ownDocument_eq_ok_iff.1 hown
      exact .cons (Module.isEntry_entry hwritten.space_eq _) ih

theorem Account.severity_ne_error {result : Except GenerationError (List Document)}
    {added : Diagnostics} (h : Account schema options ds result added) :
    ∀ remark ∈ added, remark.severity ≠ .error := by
  have hentries {ms : List Module} {entries : List Diagnostics}
      (hentries : List.Forall₂ Module.IsEntry ms entries) :
      ∀ remark ∈ entries.flatten, remark.severity ≠ .error := by
    intro remark hremark
    obtain ⟨entry, hentry, hmem⟩ := List.mem_flatten.1 hremark
    obtain ⟨m, -, hm⟩ := exists_mem_zip_of_mem_right hentries hentry
    exact hm.severity_ne_error remark hmem
  cases h with
  | done _ _ _ hare => exact hentries hare
  | @stopped before after m documents entries warnings e _ _ _ hare hfree htaken =>
      rw [List.forall_mem_append]
      refine ⟨hentries hare, ?_⟩
      by_cases hm : m.IsFree schema.bindings options (documents.map (·.space))
        (documents.map (·.fileName))
      · exact (hfree hm).severity_ne_error
      · simp [htaken hm]

/-- Whatever a generation comes to, what it has added to the remarks is accounted for: on success by
a document and an entry for each module, in order, and otherwise by the modules before the one at
which it has failed. None of the remarks that it adds is an error. -/
theorem generate_accounts (hsuffix : options.fileSuffix ≠ "") (schema : Schema)
    (ds : Diagnostics) :
    ∃ result added, (schema.generate options).run.run ds = (result, ds ++ added) ∧
      Account schema options ds result added ∧ ∀ remark ∈ added, remark.severity ≠ .error := by
  have haccount : ∃ result added, (schema.generate options).run.run ds = (result, ds ++ added) ∧
      Account schema options ds result added := by
    cases hrun : (schema.generate options).run.run ds with
    | mk result ds' =>
    cases result with
    | ok documents =>
        obtain ⟨-, hdocuments, hspaces, hfiles, rfl⟩ := run_generate_eq_ok_iff_ownDocument.1 hrun
        exact ⟨_, _, rfl, .done hdocuments hspaces hfiles (forall₂_isEntry hdocuments)⟩
    | error e =>
        have hfrom (ms : List Module) : (Schema.generate { schema with modules := ms } options) =
            documentsFrom schema.bindings options [] ms := if_neg hsuffix
        rw [hfrom] at hrun
        obtain ⟨before, m, after, documents, reported, warnings, hmodules, hbefore, hstop, rfl,
          hfree, htaken⟩ := exists_stop_of_documentsFrom hrun
        obtain ⟨hdocuments, -, -, rfl⟩ := run_documentsFrom_eq_ok_iff.1 hbefore
        rw [← hfrom] at hbefore hstop
        rw [List.append_assoc] at hstop ⊢
        exact ⟨_, _, rfl, .stopped hmodules hbefore hstop (forall₂_isEntry hdocuments) hfree htaken⟩
  obtain ⟨result, added, hrun, haccount⟩ := haccount
  exact ⟨result, added, hrun, haccount, haccount.severity_ne_error⟩

/-! ## A module that is stuck -/

/-- A module whose module class hides a property, and with a class that has no Python name. -/
def stuckSchema : Schema where
  modules := [
    { name := "m"
      declarations := [
        { kind := .moduleClass, name := "M", moduleName := "m",
          properties := [{ name := "p", hidden := true, location := ⟨"s", 2, 3⟩ }] },
        { kind := .ordinaryClass, name := "A", moduleName := "m", location := ⟨"s", 4, 1⟩ }] }]
  bindings := ⟨[{ kind := .moduleClass, source := "m", space := "m", name := "ModuleClass" }]⟩

/-- The module is free, so its hidden property is remarked on before the class is found to have no
name. -/
theorem generate_accounts_stuckSchema :
    ({} : Options).fileSuffix ≠ "" ∧
      (stuckSchema.generate {}).run.run [] =
        (.error (.unbound ⟨"s", 4, 1⟩ .ordinaryClass "m#A"),
          [⟨.warning, ⟨"s", 2, 3⟩, "hidden property 'p' of 'm' is not emitted"⟩]) ∧
      ∃ result added, (stuckSchema.generate {}).run.run [] = (result, [] ++ added) ∧
        Account stuckSchema {} [] result added ∧ ∀ remark ∈ added, remark.severity ≠ .error := by
  have hsuffix : ({} : Options).fileSuffix ≠ "" := by decide
  exact ⟨hsuffix, rfl, generate_accounts hsuffix stuckSchema []⟩

end Schema

end PklBindings
