import PklBindings.CommandLine
import PklBindings.Proofs.EmittedFiles

/-!
# Runs of the command line

When a run over arguments is done. Arguments are taken one group after another, whatever follows
them (`Arguments.take_append`). A run is done when the settings can be applied, an output directory
is given, the schema can be read and its emission is done (`CommandLine.run_done_iff`); reading
leaves the disk as it is.
-/

namespace PklBindings

/-! ## Arguments -/

namespace Arguments

variable {reader : TextReader} {a a' b : Arguments} {argument value : String} {rest : List String}

theorem take_help (h : isHelp argument = true) : take reader a (argument :: rest) = .ok .help := by
  rw [take.eq_def]
  simp only [if_pos h]

theorem take_option {option : ValueOption} (hhelp : ¬ isHelp argument = true)
    (hoption : ValueOption.ofArgument? argument = some option)
    (hset : a.setOption reader value option = .ok a') :
    take reader a (argument :: value :: rest) = take reader a' rest := by
  rw [take.eq_def]
  simp only [if_neg hhelp, hoption, hset]

theorem take_switch (hhelp : ¬ isHelp argument = true)
    (hoption : ValueOption.ofArgument? argument = none) (hswitch : a.switch? argument = some a') :
    take reader a (argument :: rest) = take reader a' rest := by
  rw [take.eq_def]
  simp only [if_neg hhelp, hoption, hswitch]

theorem take_positional (hhelp : ¬ isHelp argument = true)
    (hoption : ValueOption.ofArgument? argument = none) (hswitch : a.switch? argument = none)
    (hpositional : a.positional argument = .ok a') :
    take reader a (argument :: rest) = take reader a' rest := by
  rw [take.eq_def]
  simp only [if_neg hhelp, hoption, hswitch, hpositional]

/-- Arguments that come to a request are taken in the same way when others follow them. -/
theorem take_append {arguments : List String} (h : take reader a arguments = .ok (.generate b))
    (rest : List String) : take reader a (arguments ++ rest) = take reader b rest := by
  fun_induction take reader a arguments with
  | case1 a hempty => cases h
  | case2 a hfile =>
      cases h
      rfl
  | case3 a argument others hhelp => cases h
  | case4 a argument hhelp option hoption => cases h
  | case5 a argument hhelp option value others hoption a' hset ih =>
      rw [List.cons_append, List.cons_append, take_option hhelp hoption hset]
      exact ih h
  | case6 a argument hhelp option value others hoption e hset => cases h
  | case7 a argument hhelp others hoption a' hswitch ih =>
      rw [List.cons_append, take_switch hhelp hoption hswitch]
      exact ih h
  | case8 a argument hhelp others hoption hswitch a' hpositional ih =>
      rw [List.cons_append, take_positional hhelp hoption hswitch hpositional]
      exact ih h
  | case9 a argument hhelp others hoption hswitch e hpositional => cases h

theorem schemaFile_ne_of_take {arguments : List String}
    (h : take reader a arguments = .ok (.generate b)) : b.schemaFile ≠ "" := by
  have hend := take_append h []
  rw [List.append_nil, h, take] at hend
  intro hempty
  rw [if_pos hempty] at hend
  cases hend

/-- A switch behind all other arguments is taken last. -/
theorem parse_append_dryRun {arguments : List String}
    (h : parse reader arguments = .ok (.generate a)) :
    parse reader (arguments ++ ["--dry-run"]) = .ok (.generate { a with dryRun := true }) := by
  cases arguments with
  | nil => cases h
  | cons argument arguments =>
      have htake : take reader {} (argument :: arguments) = .ok (.generate a) := h
      have hswitch : take reader a ["--dry-run"] = take reader { a with dryRun := true } [] :=
        take_switch (by decide) rfl rfl
      rw [List.cons_append, parse.eq_def]
      dsimp only
      rw [← List.cons_append, take_append htake, hswitch, take,
        if_neg (schemaFile_ne_of_take htake)]

/-- What the settings file of the arguments comes to on a disk. Without one nothing is set. -/
def settingsOn (reader : TextReader) (a : Arguments) (disk : Disk) : SettingsOutcome :=
  if a.settingsFile = "" then ⟨.ok (), {}, []⟩
  else ((Settings.applyFile reader a.settingsFile {} [] : StateM Disk SettingsOutcome).run disk).1

/-- The options that are in effect on a disk. -/
def optionsOn (reader : TextReader) (a : Arguments) (disk : Disk) : Options :=
  a.override (a.settingsOn reader disk).options

theorem optionsOn_dryRun (reader : TextReader) (a : Arguments) (disk : Disk) :
    { a with dryRun := true }.optionsOn reader disk =
      { a.optionsOn reader disk with policy.dryRun := true } := by
  simp [optionsOn, settingsOn, override]

end Arguments

/-! ## Reading -/

theorem Settings.run_applyFile (reader : TextReader) (path : String) (options : Options)
    (ds : Diagnostics) (disk : Disk) :
    (applyFile reader path options ds : StateM Disk SettingsOutcome).run disk =
      ((disk.readText path).elim ⟨.error (.unreadable path), options, ds⟩ fun text =>
        applyText reader path text options ds, disk) := by
  rw [applyFile, stateM_run_bind, Disk.run_readText]
  cases disk.readText path <;> rfl

theorem Schema.run_ofFile (reader : TextReader) (path : String) (disk : Disk) :
    (ofFile reader path : StateM Disk (Except SchemaError Schema)).run disk =
      ((disk.readText path).elim (.error (.unreadable path)) (ofText reader path), disk) := by
  rw [ofFile, stateM_run_bind, Disk.run_readText]
  cases disk.readText path <;> rfl

/-! ## Runs -/

/-- A run that has emitted a schema. -/
def RunResult.ofEmission (schemaFile root : String) (options : Options) (emission : Emission) :
    RunResult where
  exitCode := 0
  output := if options.policy.dryRun then planLines emission.recorded else ""
  errors := emission.diagnostics.render ++
    summary schemaFile root options emission.recorded.length
  finished := true

namespace CommandLine

variable {reader : TextReader} {disk disk' : Disk} {result : RunResult}

theorem not_done_of_failed {failed : RunResult} (hfailed : failed.exitCode = 1) :
    ¬ ((failed, disk) = (result, disk') ∧ result.exitCode = 0) := by
  rintro ⟨h, hdone⟩
  cases h
  cases hfailed.symm.trans hdone

theorem run_generate_done_iff {schemaFile : String} {options : Options} {ds : Diagnostics} :
    (generate reader schemaFile options ds : StateM Disk RunResult).run disk = (result, disk') ∧
        result.exitCode = 0 ↔
      ∃ schema emission,
        (Schema.ofFile reader schemaFile : StateM Disk (Except SchemaError Schema)).run disk =
          (.ok schema, disk) ∧
        (schema.emit options ds : StateM Disk Emission).run disk = (emission, disk') ∧
        emission.result = .ok () ∧
        result = .ofEmission schemaFile
          (DiskPath.join (Disk.pathOf disk'.workPlace) options.outDir) options emission := by
  have hread := congrArg Prod.snd (Schema.run_ofFile reader schemaFile disk)
  rw [generate, stateM_run_bind]
  cases hschema : (Schema.ofFile reader schemaFile :
    StateM Disk (Except SchemaError Schema)).run disk with
  | mk read left =>
  rw [hschema] at hread
  obtain rfl := hread
  cases read with
  | error e =>
      refine iff_of_false (not_done_of_failed rfl) ?_
      rintro ⟨schema, emission, h, -⟩
      cases h
  | ok schema =>
      dsimp only
      rw [stateM_run_bind]
      cases hemit : (schema.emit options ds : StateM Disk Emission).run left with
      | mk emission after =>
      dsimp only
      cases hresult : emission.result with
      | error e =>
          refine iff_of_false (not_done_of_failed rfl) ?_
          rintro ⟨schema', emission', h, h', hdone, -⟩
          cases h
          cases hemit.symm.trans h'
          cases hresult.symm.trans hdone
      | ok _ =>
          constructor
          · rintro ⟨h, -⟩
            cases h
            exact ⟨schema, emission, rfl, hemit, hresult, rfl⟩
          · rintro ⟨schema', emission', h, h', -, rfl⟩
            cases h
            cases hemit.symm.trans h'
            exact ⟨rfl, rfl⟩

/-- A run goes on with the settings that are read first. -/
theorem run_execute (reader : TextReader) (a : Arguments) (disk : Disk) :
    (execute reader a : StateM Disk RunResult).run disk =
      match (a.settingsOn reader disk).result with
      | .error e => (.failure e.message (a.settingsOn reader disk).diagnostics, disk)
      | .ok _ =>
        if (a.optionsOn reader disk).outDir = "" then (.refused .noOutDir, disk)
        else (generate reader a.schemaFile (a.optionsOn reader disk)
          (a.settingsOn reader disk).diagnostics : StateM Disk RunResult).run disk := by
  rw [execute]
  split
  · rename_i hfile
    have hloaded : a.settingsOn reader disk = ⟨.ok (), {}, []⟩ := if_pos hfile
    rw [Arguments.optionsOn, hloaded, pure_bind]
    dsimp only
    split <;> rfl
  · rename_i hfile
    have hloaded : (Settings.applyFile reader a.settingsFile {} [] :
        StateM Disk SettingsOutcome).run disk = (a.settingsOn reader disk, disk) := by
      rw [Arguments.settingsOn, if_neg hfile]
      rw [Settings.run_applyFile]
    rw [stateM_run_bind, hloaded, Arguments.optionsOn]
    dsimp only
    cases (a.settingsOn reader disk).result with
    | error e => rfl
    | ok _ =>
        dsimp only
        split <;> rfl

theorem run_execute_done_iff {a : Arguments} :
    (execute reader a : StateM Disk RunResult).run disk = (result, disk') ∧ result.exitCode = 0 ↔
      (a.settingsOn reader disk).result = .ok () ∧ (a.optionsOn reader disk).outDir ≠ "" ∧
        (generate reader a.schemaFile (a.optionsOn reader disk)
          (a.settingsOn reader disk).diagnostics : StateM Disk RunResult).run disk =
            (result, disk') ∧ result.exitCode = 0 := by
  rw [run_execute]
  cases (a.settingsOn reader disk).result with
  | error e =>
      refine iff_of_false (not_done_of_failed rfl) ?_
      rintro ⟨h, -⟩
      cases h
  | ok _ =>
      dsimp only
      split
      · rename_i hempty
        refine iff_of_false (not_done_of_failed rfl) ?_
        rintro ⟨-, hne, -⟩
        exact hne hempty
      · rename_i hne
        exact ⟨fun h => ⟨rfl, hne, h⟩, fun h => h.2.2⟩

/-- A run that is done was not over refused arguments. -/
theorem run_done_iff {arguments : List String}
    (hhelp : Arguments.parse reader arguments ≠ .ok .help) :
    (run reader arguments : StateM Disk RunResult).run disk = (result, disk') ∧
        result.exitCode = 0 ↔
      ∃ a schema emission, Arguments.parse reader arguments = .ok (.generate a) ∧
        (a.settingsOn reader disk).result = .ok () ∧ (a.optionsOn reader disk).outDir ≠ "" ∧
        (Schema.ofFile reader a.schemaFile : StateM Disk (Except SchemaError Schema)).run disk =
          (.ok schema, disk) ∧
        (schema.emit (a.optionsOn reader disk) (a.settingsOn reader disk).diagnostics :
          StateM Disk Emission).run disk = (emission, disk') ∧
        emission.result = .ok () ∧
        result = .ofEmission a.schemaFile
          (DiskPath.join (Disk.pathOf disk'.workPlace) (a.optionsOn reader disk).outDir)
          (a.optionsOn reader disk) emission := by
  rw [run]
  cases hparse : Arguments.parse reader arguments with
  | error e =>
      refine iff_of_false (not_done_of_failed rfl) ?_
      rintro ⟨a, schema, emission, h, -⟩
      cases h
  | ok request =>
      cases request with
      | help => exact absurd hparse hhelp
      | generate a =>
          dsimp only
          rw [run_execute_done_iff, run_generate_done_iff]
          constructor
          · rintro ⟨hsettings, houtDir, schema, emission, hdone⟩
            exact ⟨a, schema, emission, rfl, hsettings, houtDir, hdone⟩
          · rintro ⟨a', schema, emission, hrequest, hsettings, houtDir, hdone⟩
            cases hrequest
            exact ⟨hsettings, houtDir, schema, emission, hdone⟩

end CommandLine

end PklBindings
