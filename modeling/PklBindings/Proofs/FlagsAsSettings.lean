import PklBindings.Proofs.Flags
import PklBindings.Proofs.OneTextApart
import PklBindings.TextReader.Strict

/-!
# Flags in place of settings

A run with flags goes as one without, for which the flags are written into the settings file
(`CommandLine.run_flags_eq_run_settings`). The two runs start on disks that differ in the text of
that file. The options that they come to are the same, and so are the remarks on the document. From
there on every step gives the same on both disks, even when the schema is read from the settings
file.
-/

namespace PklBindings

open Json (Members)
open Disk (SameBut)

variable {reader : TextReader} {place : Place} {disk disk' : Disk} {members members' : Members}
  {path text : String} {mode : UInt32}

/-! ## The settings file -/

namespace Settings

/-- Settings of a file that are accepted are remarked on, and change the options. -/
theorem settingsOn_eq {a : Arguments} {json : Json} {options : Options}
    (hfind : disk.find a.settingsFile = .entry place (.file text mode))
    (htext : reader.json text = .ok json)
    (haccepted : (apply json).run.run {} = (.ok (), options)) :
    a.settingsOn reader disk = ⟨.ok (), options, warnings a.settingsFile json⟩ := by
  have hne : a.settingsFile ≠ "" := by
    intro hempty
    rw [hempty] at hfind
    cases hfind
  have hread : disk.readText a.settingsFile = some text := by
    rw [Disk.readText, hfind]
  rw [Arguments.settingsOn, if_neg hne, run_applyFile, hread, Option.elim_some, applyText, htext]
  dsimp only
  rw [applyDocument, haccepted, List.nil_append]
  rfl

end Settings

/-! ## The schema file -/

namespace Schema

/-- A schema is read from two members of its document alone. -/
theorem ofJson_congr (source : String)
    (hmodules : members.get? "modules" = members'.get? "modules")
    (hmappings : members.get? "mappings" = members'.get? "mappings") :
    ofJson source (.object members) = ofJson source (.object members') := by
  have hitems : Reflection.moduleItems members = Reflection.moduleItems members' := by
    rw [Reflection.moduleItems, Reflection.moduleItems, hmodules]
  have hbindings : members.optionalItems .root "mappings" =
      members'.optionalItems .root "mappings" := by
    rw [Members.optionalItems, Members.optionalItems, hmappings]
  have hschema : Reflection.schema source (.object members) =
      Reflection.schema source (.object members') := by
    simp only [Reflection.schema, Json.requireMembers, Json.members?, liftExcept, pure_bind,
      hitems, hbindings, hmappings]
  rw [ofJson, ofJson, hschema]

/-- The same schema is in a document with the flags put over it. -/
theorem ofJson_overridden {flags : Flags}
    (hmembers : Members.Overridden (flags.members reader) members members')
    (source : String) :
    Schema.ofJson source (.object members) = Schema.ofJson source (.object members') := by
  have hget {name : String} (h : name ∉ Settings.knownNames) :
      members.get? name = members'.get? name := by
    rw [hmembers.get?_eq, Flags.get?_members_eq_none h, Option.none_or]
  exact ofJson_congr source (hget (by decide)) (hget (by decide))

/-- A schema is read alike from disks that differ in one text, if the two texts are of one
schema. -/
theorem agrees_ofFile (h : SameBut place disk disk')
    (htexts : ∀ text text' mode, disk.find path = .entry place (.file text mode) →
      disk'.find path = .entry place (.file text' mode) →
        ofText reader path text = ofText reader path text') :
    Agrees (SameBut place) (ofFile reader path : StateM Disk (Except SchemaError Schema))
      disk disk' := by
  rw [Agrees, run_ofFile, run_ofFile]
  refine ⟨?_, h⟩
  rcases h.readText_cases path with hsame | ⟨text, text', mode, hfind, hfind'⟩
  · rw [hsame]
  · rw [Disk.readText, Disk.readText, hfind, hfind']
    exact htexts text text' mode hfind hfind'

theorem respects_emit (place : Place) (schema : Schema) (options : Options) (ds : Diagnostics) :
    Respects (SameBut place) (schema.emit options ds : StateM Disk Emission) := by
  have hP := Respects.compositional (R := SameBut place)
  rw [emit]
  split
  · exact hP.of_pure _
  split
  · exact hP.of_pure _
  · refine hP.bind ?_ fun _ => hP.of_pure _
    exact (SameBut.stepsRespect place).writeFiles hP _ fun _ _ => trivial

end Schema

/-! ## Runs -/

namespace CommandLine

theorem agrees_generate {options : Options} {ds : Diagnostics}
    (hschema : Agrees (SameBut place)
      (Schema.ofFile reader path : StateM Disk (Except SchemaError Schema)) disk disk') :
    Agrees (SameBut place) (generate reader path options ds : StateM Disk RunResult)
      disk disk' := by
  have hP := Respects.compositional (R := SameBut place)
  refine hschema.bind ?_
  intro read
  cases read with
  | error e => exact hP.of_pure _
  | ok schema =>
      refine hP.bind (schema.respects_emit place options ds) ?_
      intro emission
      dsimp only
      split
      · exact hP.of_pure _
      · exact hP.bind (SameBut.stepsRespect place).currentDirectory fun _ => hP.of_pure _

/-- A run over settings that are accepted goes on with the options that they come to. -/
theorem run_eq_generate {arguments : List String} {a : Arguments} {options : Options}
    {ds : Diagnostics} (hparse : Arguments.parse reader arguments = .ok (.generate a))
    (hloaded : a.settingsOn reader disk = ⟨.ok (), options, ds⟩) :
    (run reader arguments : StateM Disk RunResult).run disk =
      if (a.override options).outDir = "" then (.refused .noOutDir, disk)
      else
        (generate reader a.schemaFile (a.override options) ds :
          StateM Disk RunResult).run disk := by
  rw [run, hparse]
  dsimp only
  rw [run_execute, Arguments.optionsOn, hloaded]

variable {schemaFile settingsFile text' : String} {options : Options} {flags : Flags}
  {groups groups' : List ArgumentGroup}

/-- A run with flags over a settings file that is accepted goes as a run without flags over one
that has the flags as members in place of its own: it ends with the same status, it prints the same,
and it leaves the same on the disk, but for the text of the settings file. The arguments may stand
in any order. -/
theorem run_flags_eq_run_settings
    (hschema : ArgumentGroup.IsValid reader (.schemaFile schemaFile))
    (hflags : flags.IsValid reader)
    (hgroups : groups.Perm (flags.groupsWith schemaFile settingsFile))
    (hgroups' : groups'.Perm (({} : Flags).groupsWith schemaFile settingsFile))
    (hsame : SameBut place disk disk')
    (hfind : disk.find settingsFile = .entry place (.file text mode))
    (hfind' : disk'.find settingsFile = .entry place (.file text' mode))
    (htext : reader.json text = .ok (.object members))
    (htext' : reader.json text' = .ok (.object members'))
    (hmembers : Members.Overridden (flags.members reader) members members')
    (haccepted : (Settings.apply (.object members)).run.run {} = (.ok (), options)) :
    ∃ result left left',
      (run reader (groups.flatMap ArgumentGroup.tokens) : StateM Disk RunResult).run disk =
        (result, left) ∧
      (run reader (groups'.flatMap ArgumentGroup.tokens) : StateM Disk RunResult).run disk' =
        (result, left') ∧
      SameBut place left left' := by
  have hparse := Flags.parse_of_perm hschema hflags hgroups
  have hparse' := Flags.parse_of_perm hschema (by simp [Flags.IsValid, Flags.groups]) hgroups'
  -- The flags are put over the document before it is read, or over the options that it comes to.
  have hloaded : (flags.argumentsWith reader schemaFile settingsFile).settingsOn reader disk =
      ⟨.ok (), options, Settings.warnings settingsFile (.object members)⟩ :=
    Settings.settingsOn_eq hfind htext haccepted
  have hloaded' :
      (({} : Flags).argumentsWith reader schemaFile settingsFile).settingsOn reader disk' =
        ⟨.ok (), (flags.choice reader).onto options,
          Settings.warnings settingsFile (.object members)⟩ := by
    rw [← Flags.warnings_overridden hmembers]
    exact Settings.settingsOn_eq hfind' htext'
      (Flags.run_apply_overridden hflags hmembers haccepted)
  have hread : Agrees (SameBut place)
      (Schema.ofFile reader schemaFile : StateM Disk (Except SchemaError Schema)) disk disk' := by
    -- Even the settings file is the same schema with either text, if it is one.
    refine Schema.agrees_ofFile hsame ?_
    intro found found' mode' hfound hfound'
    cases (Disk.eq_of_find_eq_entry hfound).2.symm.trans (Disk.eq_of_find_eq_entry hfind).2
    cases (Disk.eq_of_find_eq_entry hfound').2.symm.trans (Disk.eq_of_find_eq_entry hfind').2
    rw [Schema.ofText, Schema.ofText, htext, htext']
    exact Schema.ofJson_overridden hmembers schemaFile
  have hnone : (({} : Flags).choice reader).onto ((flags.choice reader).onto options) =
      (flags.choice reader).onto options := rfl
  rw [run_eq_generate hparse hloaded, run_eq_generate hparse' hloaded', Flags.override_eq_onto,
    Flags.override_eq_onto, hnone]
  split
  · exact ⟨.refused .noOutDir, disk, disk', rfl, rfl, hsame⟩
  · exact (agrees_generate hread).exists_run

/-! ## A settings file on a disk -/

/-- A settings document that has a member without a meaning. -/
def settingsText : String :=
  "\x7b\"indent\":2,\"tabs\":true\x7d"

/-- The same document with flags put over it. -/
def settingsTextWithFlags : String :=
  "\x7b\"outputDirectory\":\"out\",\"indent\":3,\"fileSuffix\":\"py\",\"dryRun\":true," ++
    "\"tabs\":true\x7d"

/-- A disk with a schema file and a settings file. -/
def settingsDisk : Disk where
  workPlace := ["work"]
  root := [("work", .directory [
    ("m.json", .file
      ("\x7b\"modules\":[\x7b\"name\":\"m\",\"declarations\":[" ++
        "\x7b\"kind\":\"module\",\"name\":\"M\"\x7d]\x7d]\x7d") 0o644),
    ("s.json", .file settingsText 0o600)])]

/-- All flags but one. -/
def someFlags : Flags where
  outDir := some "out"
  indent := some "3"
  suffix := some "py"
  dryRun := true

/-- The flags as arguments, and the flags in the settings file. -/
theorem run_flags_eq_run_settings_settingsDisk :
    ∃ result left left',
      (run .strict ["--indent", "3", "m.json", "--dry-run", "--settings", "s.json",
        "--out-dir", "out", "--suffix", "py"] : StateM Disk RunResult).run settingsDisk =
          (result, left) ∧
      (run .strict ["m.json", "--settings", "s.json"] : StateM Disk RunResult).run
        (settingsDisk.insert ["work", "s.json"] (.file settingsTextWithFlags 0o600)) =
          (result, left') ∧
      SameBut ["work", "s.json"] left left' := by
  have hschema : ArgumentGroup.IsValid .strict (.schemaFile "m.json") := by
    simp [ArgumentGroup.IsValid]
  have hindent : Arguments.indentUnitOf .strict "3" = .ok "   " := by decide +kernel
  have hflags : someFlags.IsValid .strict := by
    simp [Flags.IsValid, Flags.groups, someFlags, ArgumentGroup.IsValid, hindent]
  have hgroups : [.option .indent "3", .schemaFile "m.json", .dryRun, .option .settings "s.json",
      .option .outDir "out", .option .suffix "py"].Perm
      (someFlags.groupsWith "m.json" "s.json") := by decide +kernel
  have hsame : SameBut ["work", "s.json"] settingsDisk
      (settingsDisk.insert ["work", "s.json"] (.file settingsTextWithFlags 0o600)) :=
    SameBut.insert_text rfl _
  have hfind : settingsDisk.find "s.json" =
      .entry ["work", "s.json"] (.file settingsText 0o600) := rfl
  have hfind' : (settingsDisk.insert ["work", "s.json"]
      (.file settingsTextWithFlags 0o600)).find "s.json" =
      .entry ["work", "s.json"] (.file settingsTextWithFlags 0o600) := rfl
  have htext : TextReader.strict.json settingsText =
      .ok (.object [("indent", .number (.integer 2)), ("tabs", .bool true)]) := by
    unfold TextReader.strict Json.parse? settingsText
    dsimp
    rfl
  have htext' : TextReader.strict.json settingsTextWithFlags =
      .ok (.object [("outputDirectory", .string "out"), ("indent", .number (.integer 3)),
        ("fileSuffix", .string "py"), ("dryRun", .bool true), ("tabs", .bool true)]) := by
    unfold TextReader.strict Json.parse? settingsTextWithFlags
    dsimp
    rfl
  have hmembers : Members.Overridden (someFlags.members .strict)
      [("indent", .number (.integer 2)), ("tabs", .bool true)]
      [("outputDirectory", .string "out"), ("indent", .number (.integer 3)),
        ("fileSuffix", .string "py"), ("dryRun", .bool true), ("tabs", .bool true)] :=
    Members.overridden_append (by decide +kernel) (by decide)
  have haccepted : (Settings.apply (.object [("indent", .number (.integer 2)),
      ("tabs", .bool true)])).run.run {} = (.ok (), { indentUnit := "  " }) := rfl
  have h := run_flags_eq_run_settings hschema hflags hgroups (.refl _) hsame hfind hfind' htext
    htext' hmembers haccepted
  have htokens : [ArgumentGroup.option .indent "3", .schemaFile "m.json", .dryRun,
      .option .settings "s.json", .option .outDir "out", .option .suffix "py"].flatMap
      ArgumentGroup.tokens = ["--indent", "3", "m.json", "--dry-run", "--settings", "s.json",
        "--out-dir", "out", "--suffix", "py"] := rfl
  have htokens' : (({} : Flags).groupsWith "m.json" "s.json").flatMap ArgumentGroup.tokens =
      ["m.json", "--settings", "s.json"] := rfl
  rw [htokens, htokens'] at h
  exact h

end CommandLine

end PklBindings
