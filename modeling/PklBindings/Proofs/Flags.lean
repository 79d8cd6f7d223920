import PklBindings.Proofs.ArgumentGroups
import PklBindings.Proofs.SettingsChoices

/-!
# Flags and members

The options and switches of the command line that are written as members of a settings document as
well. As arguments they go before the settings, and as members they are put over the document, and
the options that come of it are the same (`Flags.override_eq_onto`).
-/

namespace PklBindings

open Json (Members)

/-- What is given on the command line of the output directory, the width of the indent unit as it is
written, and the suffix, and which of the two switches are turned on. -/
structure Flags where
  outDir : Option String := none
  indent : Option String := none
  suffix : Option String := none
  dryRun : Bool := false
  noOverwrite : Bool := false
  deriving DecidableEq, Repr

namespace Flags

variable {reader : TextReader} {flags : Flags}

/-! ## As arguments -/

/-- The flags as groups of arguments. -/
def groups (flags : Flags) : List ArgumentGroup :=
  (flags.outDir.map (.option .outDir)).toList ++ (flags.indent.map (.option .indent)).toList ++
    (flags.suffix.map (.option .suffix)).toList ++
    (if flags.dryRun then [.dryRun] else []) ++ (if flags.noOverwrite then [.noOverwrite] else [])

/-- Each flag is accepted: the width has an indent unit, and the suffix is not empty. -/
def IsValid (reader : TextReader) (flags : Flags) : Prop :=
  ∀ g ∈ flags.groups, g.IsValid reader

/-- A schema file, a settings file and the flags, as groups of arguments. -/
def groupsWith (flags : Flags) (schemaFile settingsFile : String) : List ArgumentGroup :=
  .schemaFile schemaFile :: .option .settings settingsFile :: flags.groups

/-- A schema file, a settings file and the flags, as they are taken. -/
def argumentsWith (reader : TextReader) (flags : Flags) (schemaFile settingsFile : String) :
    Arguments where
  schemaFile := schemaFile
  settingsFile := settingsFile
  outDir := flags.outDir
  indentUnit := flags.indent.bind fun width => (Arguments.indentUnitOf reader width).toOption
  fileSuffix := flags.suffix
  dryRun := flags.dryRun
  noOverwrite := flags.noOverwrite

theorem foldl_store_groupsWith (reader : TextReader) (flags : Flags)
    (schemaFile settingsFile : String) :
    (flags.groupsWith schemaFile settingsFile).foldl (Arguments.store reader) {} =
      flags.argumentsWith reader schemaFile settingsFile := by
  obtain ⟨outDir, indent, suffix, dryRun, noOverwrite⟩ := flags
  cases outDir <;> cases indent <;> cases suffix <;> cases dryRun <;> cases noOverwrite <;> rfl

theorem nodup_words_groupsWith (flags : Flags) (schemaFile settingsFile : String) :
    ((flags.groupsWith schemaFile settingsFile).map ArgumentGroup.word).Nodup := by
  obtain ⟨outDir, indent, suffix, dryRun, noOverwrite⟩ := flags
  cases outDir <;> cases indent <;> cases suffix <;> cases dryRun <;> cases noOverwrite <;>
    simp [groupsWith, groups, ArgumentGroup.word, ValueOption.word]

/-- The groups are taken in whatever order they stand. -/
theorem parse_of_perm {schemaFile settingsFile : String} {groups : List ArgumentGroup}
    (hfile : ArgumentGroup.IsValid reader (.schemaFile schemaFile))
    (hvalid : flags.IsValid reader)
    (hperm : groups.Perm (flags.groupsWith schemaFile settingsFile)) :
    Arguments.parse reader (groups.flatMap ArgumentGroup.tokens) =
      .ok (.generate (flags.argumentsWith reader schemaFile settingsFile)) := by
  have hwords : (groups.map ArgumentGroup.word).Nodup :=
    (hperm.map _).nodup_iff.2 (flags.nodup_words_groupsWith schemaFile settingsFile)
  rw [Arguments.parse_groups ?_ hwords ?_, Arguments.foldl_store_perm reader hperm hwords,
    foldl_store_groupsWith]
  · intro g hg
    rw [hperm.mem_iff, groupsWith, List.mem_cons, List.mem_cons] at hg
    rcases hg with rfl | rfl | hg
    · exact hfile
    · trivial
    · exact hvalid g hg
  · rw [(hperm.map _).mem_iff]
    exact List.mem_cons_self

/-! ## As members -/

/-- The flags as members of a settings document. -/
def members (reader : TextReader) (flags : Flags) : Members :=
  Json.optionalMember "outputDirectory" (flags.outDir.map .string) ++
    Json.optionalMember "indent"
      ((flags.indent.bind reader.integer).map fun n => .number (.integer n.toInt)) ++
    Json.optionalMember "fileSuffix" (flags.suffix.map .string) ++
    Json.optionalMember "dryRun" (if flags.dryRun then some (.bool true) else none) ++
    Json.optionalMember "noOverwrite" (if flags.noOverwrite then some (.bool true) else none)

/-- What the flags choose. A switch that is not turned on chooses nothing. -/
def choice (reader : TextReader) (flags : Flags) : Settings.Choice where
  outDir := flags.outDir
  indentUnit := flags.indent.bind fun width => (Arguments.indentUnitOf reader width).toOption
  fileSuffix := flags.suffix
  dryRun := if flags.dryRun then some true else none
  noOverwrite := if flags.noOverwrite then some true else none

theorem override_eq_onto (reader : TextReader) (flags : Flags) (schemaFile settingsFile : String)
    (o : Options) :
    (flags.argumentsWith reader schemaFile settingsFile).override o =
      (flags.choice reader).onto o := by
  obtain ⟨outDir, indent, suffix, dryRun, noOverwrite⟩ := flags
  cases dryRun <;> cases noOverwrite <;>
    simp [Arguments.override, Settings.Choice.onto, argumentsWith, choice]

/-- Flags do not take the suffix away. -/
theorem fileSuffix_onto_ne (hvalid : flags.IsValid reader) {o : Options} (ho : o.fileSuffix ≠ "") :
    ((flags.choice reader).onto o).fileSuffix ≠ "" := by
  rw [Settings.Choice.onto, choice]
  cases hsuffix : flags.suffix with
  | none => exact ho
  | some suffix => exact hvalid (.option .suffix suffix) (by simp [groups, hsuffix])

/-- What a flag is as a member. -/
theorem get?_members (reader : TextReader) (flags : Flags) (name : String) :
    (flags.members reader).get? name =
      if name = "outputDirectory" then flags.outDir.map .string
      else if name = "indent" then
        (flags.indent.bind reader.integer).map fun n => .number (.integer n.toInt)
      else if name = "fileSuffix" then flags.suffix.map .string
      else if name = "dryRun" then if flags.dryRun then some (.bool true) else none
      else if name = "noOverwrite" then if flags.noOverwrite then some (.bool true) else none
      else none := by
  simp only [members, Json.get?_append, Json.get?_optionalMember]
  -- Under one name there is at most one of the members.
  by_cases houtDir : name = "outputDirectory"
  · simp [houtDir]
  by_cases hindent : name = "indent"
  · simp [hindent]
  by_cases hsuffix : name = "fileSuffix"
  · simp [hsuffix]
  by_cases hdryRun : name = "dryRun"
  · simp [hdryRun]
  simp [houtDir, hindent, hsuffix, hdryRun]

theorem get?_members_eq_none {name : String} (h : name ∉ Settings.knownNames) :
    (flags.members reader).get? name = none := by
  simp only [Settings.knownNames, List.mem_cons, not_or] at h
  rw [get?_members]
  simp [h]

theorem mem_knownNames_of_mem {name : String} (h : name ∈ (flags.members reader).map (·.1)) :
    name ∈ Settings.knownNames := by
  by_contra hname
  exact Members.mem_names_iff.1 h (get?_members_eq_none hname)

/-- A width that is accepted as an argument has the same indent unit as a number in a document. -/
theorem indentUnit_of_indentUnitOf {width unit : String}
    (h : Arguments.indentUnitOf reader width = .ok unit) :
    ∃ n, reader.integer width = some n ∧
      Settings.indentUnit (.number (.integer n.toInt)) = .ok unit := by
  rw [Arguments.indentUnitOf] at h
  cases hn : reader.integer width with
  | none =>
      rw [hn] at h
      cases h
  | some n =>
      rw [hn] at h
      have hfits : Json.Number.fits n.toInt = true := by
        rw [Json.Number.fits, Bool.and_eq_true, decide_eq_true_eq, decide_eq_true_eq]
        exact ⟨n.le_toInt, n.toInt_lt⟩
      refine ⟨n, rfl, ?_⟩
      rw [Settings.indentUnit, Json.integer?, Json.Number.toInteger?_integer hfits]
      dsimp only at h ⊢
      cases hunit : indentOfWidth? n.toInt with
      | none =>
          rw [hunit] at h
          cases h
      | some spaces =>
          rw [hunit] at h
          cases h
          rfl

theorem member?_text_map {members : Members} {name : String} {v : Option String}
    (h : members.get? name = v.map .string) :
    Settings.member? members name Settings.text = .ok v := by
  rw [Settings.member?, h]
  cases v <;> rfl

theorem member?_flag_ite {members : Members} {name : String} {turned : Bool}
    (h : members.get? name = if turned then some (.bool true) else none) :
    Settings.member? members name Settings.flag = .ok (if turned then some true else none) := by
  rw [Settings.member?, h]
  cases turned <;> rfl

/-- As members the flags are read as they are as arguments. -/
theorem chooses_members (hvalid : flags.IsValid reader) :
    Settings.Chooses (flags.members reader) (flags.choice reader) where
  outDir := member?_text_map (flags.get?_members reader _)
  fileSuffix := member?_text_map (flags.get?_members reader _)
  dryRun := member?_flag_ite (flags.get?_members reader _)
  noOverwrite := member?_flag_ite (flags.get?_members reader _)
  headerLines := by
    rw [Settings.member?, get?_members]
    rfl
  indentUnit := by
    have hget : (flags.members reader).get? "indent" =
        (flags.indent.bind reader.integer).map fun n => .number (.integer n.toInt) :=
      flags.get?_members reader _
    rw [Settings.member?, hget, choice]
    cases hindent : flags.indent with
    | none => rfl
    | some width =>
        obtain ⟨unit, hunit⟩ : ArgumentGroup.IsValid reader (.option .indent width) :=
          hvalid _ (by simp [groups, hindent])
        obtain ⟨n, hn, hread⟩ := indentUnit_of_indentUnitOf hunit
        rw [Option.bind_some, Option.bind_some, hn, hunit, Option.map_some]
        dsimp only
        rw [hread]
        rfl

/-! ## Over a document -/

variable {members members' : Members} {o o' : Options}

/-- A document that is accepted is accepted with the flags put over it as well, and comes to its
options with those of the flags put over them. -/
theorem run_apply_overridden (hvalid : flags.IsValid reader)
    (hmembers : Members.Overridden (flags.members reader) members members')
    (haccepted : (Settings.apply (.object members)).run.run o = (.ok (), o')) :
    (Settings.apply (.object members')).run.run o = (.ok (), (flags.choice reader).onto o') := by
  obtain ⟨c, hc, hne, rfl⟩ := Settings.apply_eq_ok_iff.1 haccepted
  refine Settings.apply_eq_ok_iff.2 ⟨(flags.choice reader).or c, ?_, ?_, ?_⟩
  · exact (chooses_members hvalid).overridden hc hmembers
  · rw [Settings.Choice.onto_or]
    exact fileSuffix_onto_ne hvalid hne
  · rw [Settings.Choice.onto_or]

/-- The same is remarked on with the flags put over a document. -/
theorem warnings_overridden (hmembers : Members.Overridden (flags.members reader) members members')
    (source : String) :
    Settings.warnings source (.object members') = Settings.warnings source (.object members) := by
  have hunknown := Settings.unknownNames_eq hmembers fun _ => mem_knownNames_of_mem
  rw [Settings.warnings, Settings.warnings]
  simp only [Json.members?, hunknown]

end Flags

end PklBindings
