import PklBindings.Proofs.SettingsChoices

/-!
# Settings over settings

Documents that are accepted one after another do what one document does in which the members of the
later one override those of the earlier one (`Settings.apply_composes`). An option is what its
member stands for, whatever it was before. Options without a member stay as they are.
-/

namespace PklBindings

open Json (Members)

/-- A member of settings documents that means something. -/
inductive Setting where
  | indent
  | fileSuffix
  | outputDirectory
  | dryRun
  | noOverwrite
  | headerLines
  deriving DecidableEq, Repr

namespace Setting

/-- The name of the member. -/
def name : Setting → String
  | indent => "indent"
  | fileSuffix => "fileSuffix"
  | outputDirectory => "outputDirectory"
  | dryRun => "dryRun"
  | noOverwrite => "noOverwrite"
  | headerLines => "headerLines"

example :
    [indent, fileSuffix, outputDirectory, dryRun, noOverwrite, headerLines].map name =
      Settings.knownNames := rfl

/-- What the option is. -/
def Value : Setting → Type
  | indent | fileSuffix | outputDirectory => String
  | dryRun | noOverwrite => Bool
  | headerLines => List String

/-- What the member stands for. -/
def read : (setting : Setting) → Json → Except SettingRule setting.Value
  | indent => Settings.indentUnit
  | fileSuffix | outputDirectory => Settings.text
  | dryRun | noOverwrite => Settings.flag
  | headerLines => Settings.lines

end Setting

/-- The option that a setting is for. -/
def Options.value (o : Options) : (setting : Setting) → setting.Value
  | .indent => o.indentUnit
  | .fileSuffix => o.fileSuffix
  | .outputDirectory => o.outDir
  | .dryRun => o.policy.dryRun
  | .noOverwrite => o.policy.noOverwrite
  | .headerLines => o.headerLines

namespace Settings

variable {members lower upper merged : Members} {o o' o₁ o₂ : Options} {c : Choice}

/-- The value that is chosen for a setting. -/
def Choice.value? (c : Choice) : (setting : Setting) → Option setting.Value
  | .indent => c.indentUnit
  | .fileSuffix => c.fileSuffix
  | .outputDirectory => c.outDir
  | .dryRun => c.dryRun
  | .noOverwrite => c.noOverwrite
  | .headerLines => c.headerLines

theorem Choice.value_onto (c : Choice) (o : Options) (setting : Setting) :
    (c.onto o).value setting = (c.value? setting).getD (o.value setting) := by
  cases setting <;> rfl

theorem Chooses.member?_eq (h : Chooses members c) (setting : Setting) :
    member? members setting.name setting.read = .ok (c.value? setting) := by
  cases setting with
  | indent => exact h.indentUnit
  | fileSuffix => exact h.fileSuffix
  | outputDirectory => exact h.outDir
  | dryRun => exact h.dryRun
  | noOverwrite => exact h.noOverwrite
  | headerLines => exact h.headerLines

/-- The settings are accepted and make `o'` of the options `o`. -/
def Accepts (members : Members) (o o' : Options) : Prop :=
  (apply (.object members)).run.run o = (.ok (), o')

theorem Accepts.overridden (hmerged : Members.Overridden upper lower merged)
    (hlower : Accepts lower o o₁) (hupper : Accepts upper o₁ o₂) : Accepts merged o o₂ := by
  obtain ⟨c, hc, -, rfl⟩ := apply_eq_ok_iff.1 hlower
  obtain ⟨d, hd, hsuffix, rfl⟩ := apply_eq_ok_iff.1 hupper
  rw [← Choice.onto_or] at hsuffix ⊢
  exact apply_eq_ok_iff.2 ⟨d.or c, hd.overridden hc hmerged, hsuffix, rfl⟩

theorem Accepts.fileMode_eq (h : Accepts members o o') :
    o'.policy.fileMode = o.policy.fileMode := by
  obtain ⟨c, -, -, rfl⟩ := apply_eq_ok_iff.1 h
  rfl

theorem Accepts.value_eq_of_get?_eq_none (h : Accepts members o o') {setting : Setting}
    (hget : members.get? setting.name = none) : o'.value setting = o.value setting := by
  obtain ⟨c, hc, -, rfl⟩ := apply_eq_ok_iff.1 h
  have hchosen := hc.member?_eq setting
  rw [member?, hget, Except.ok.injEq] at hchosen
  rw [Choice.value_onto, ← hchosen, Option.getD_none]

/-- The member alone says what the option is. -/
theorem Accepts.read_eq_of_get?_eq_some (h : Accepts members o o') {setting : Setting} {json : Json}
    (hget : members.get? setting.name = some json) :
    setting.read json = .ok (o'.value setting) := by
  obtain ⟨c, hc, -, rfl⟩ := apply_eq_ok_iff.1 h
  have hchosen := hc.member?_eq setting
  rw [member?, hget] at hchosen
  dsimp only at hchosen
  cases hread : setting.read json with
  | error rule =>
      rw [hread] at hchosen
      cases hchosen
  | ok value =>
      rw [hread] at hchosen
      have hvalue : some value = c.value? setting := Except.ok.inj hchosen
      rw [Choice.value_onto, ← hvalue, Option.getD_some]

/-- Settings compose as objects do of which one overrides the other. Accepted settings change an
option when they have its member, and then to what this member stands for: the options of before do
not matter. No other option is changed. What an emission records is its answer and no option, so
settings are not about it. -/
theorem apply_composes :
    (∀ {lower upper merged : Members} {o o₁ o₂ : Options},
      Members.Overridden upper lower merged →
      Accepts lower o o₁ → Accepts upper o₁ o₂ → Accepts merged o o₂) ∧
    ∀ {members : Members} {o o' : Options}, Accepts members o o' →
      (∀ setting : Setting, members.get? setting.name = none →
        o'.value setting = o.value setting) ∧
      o'.policy.fileMode = o.policy.fileMode ∧
      ∀ (setting : Setting) (json : Json), members.get? setting.name = some json →
        setting.read json = .ok (o'.value setting) ∧
        ∀ {p p' : Options}, Accepts members p p' → p'.value setting = o'.value setting := by
  refine ⟨fun hmerged hlower hupper => hlower.overridden hmerged hupper, fun h => ?_⟩
  refine ⟨fun _ hget => h.value_eq_of_get?_eq_none hget, h.fileMode_eq, fun setting json hget => ?_⟩
  have hread := h.read_eq_of_get?_eq_some hget
  refine ⟨hread, fun hother => ?_⟩
  -- The member is the same in both runs, and it is read without the options.
  have hreadOther := hother.read_eq_of_get?_eq_some hget
  rw [hread] at hreadOther
  exact (Except.ok.inj hreadOther).symm

/-- Tabs, a suffix and a header of one line. -/
def tabSettings : Members := [("indent", .string "\t"), ("fileSuffix", .string "gen"),
  ("headerLines", .array [.string "generated"])]

/-- Two spaces, no header and nothing on the disk. -/
def drySettings : Members := [("headerLines", .array []), ("indent", .number (.integer 2)),
  ("dryRun", .bool true)]

theorem apply_composes_tabSettings :
    Accepts (drySettings ++ [("fileSuffix", .string "gen")]) { outDir := "out" }
      { outDir := "out", indentUnit := "  ", fileSuffix := "gen", policy := { dryRun := true } } ∧
    ∀ {p p' : Options}, Accepts drySettings p p' → p'.indentUnit = "  " ∧ p'.headerLines = [] := by
  have hlower : Accepts tabSettings { outDir := "out" }
      { outDir := "out", indentUnit := "\t", fileSuffix := "gen", headerLines := ["generated"] } :=
    rfl
  have hupper : Accepts drySettings
      { outDir := "out", indentUnit := "\t", fileSuffix := "gen", headerLines := ["generated"] }
      { outDir := "out", indentUnit := "  ", fileSuffix := "gen", policy := { dryRun := true } } :=
    rfl
  have hmerged : Members.Overridden drySettings tabSettings
      (drySettings ++ [("fileSuffix", .string "gen")]) :=
    Members.overridden_append (by decide) (by decide)
  refine ⟨apply_composes.1 hmerged hlower hupper, fun h => ?_⟩
  obtain ⟨-, -, hstored⟩ := apply_composes.2 hupper
  exact ⟨(hstored .indent _ rfl).2 h, (hstored .headerLines _ rfl).2 h⟩

end Settings

end PklBindings
