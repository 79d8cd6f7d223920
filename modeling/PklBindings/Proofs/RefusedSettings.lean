import PklBindings.Proofs.ComposedSettings
import PklBindings.Proofs.KeptRelations

/-!
# Settings that are refused

A document that is refused may have stored options before its fault is found. What is stored is what
some member of the document stands for (`Settings.keeps_apply`), so a member that breaks its rule is
not stored. There is one exception: a suffix is stored before it is looked at, and the empty one
stays in the options (`Settings.fileSuffix_optionsAfter`). Over any number of documents the indent
unit stays one, and there is a suffix as long as the last one that was stored is not empty
(`Settings.applyInTurn_keeps_iff`).
-/

namespace PklBindings

open Json (Members)

/-! ## Storing -/

namespace Setting

/-- Puts a value into the options. -/
def store : (setting : Setting) → setting.Value → Options → Options
  | indent, s, o => { o with indentUnit := s }
  | fileSuffix, s, o => { o with fileSuffix := s }
  | outputDirectory, s, o => { o with outDir := s }
  | dryRun, b, o => { o with policy.dryRun := b }
  | noOverwrite, b, o => { o with policy.noOverwrite := b }
  | headerLines, ls, o => { o with headerLines := ls }

@[simp] theorem value_store (setting : Setting) (v : setting.Value) (o : Options) :
    (setting.store v o).value setting = v := by
  cases setting <;> rfl

theorem value_store_of_ne {setting other : Setting} (h : other ≠ setting) (v : setting.Value)
    (o : Options) : (setting.store v o).value other = o.value other := by
  cases setting <;> cases other <;> first | rfl | exact absurd rfl h

theorem name_injective : Function.Injective name := by
  intro setting other h
  cases setting <;> cases other <;> first | rfl | simp [name] at h

end Setting

namespace Settings

variable {α : Type} {members : Members} {setting : Setting} {o o' : Options} {fault : SettingsFault}

theorem member?_eq_some_iff {name : String} {read : Json → Except SettingRule α} {v : α} :
    member? members name read = .ok (some v) ↔
      ∃ json, members.get? name = some json ∧ read json = .ok v := by
  rw [member?]
  cases members.get? name with
  | none => simp
  | some json =>
      dsimp only
      cases hread : read json <;> simp [Except.map, hread]

theorem member?_eq_none_iff {name : String} {read : Json → Except SettingRule α} :
    member? members name read = .ok none ↔ members.get? name = none := by
  rw [member?]
  cases members.get? name with
  | none => simp
  | some json =>
      dsimp only
      cases hread : read json <;> simp [Except.map]

theorem member?_eq_error_iff {name : String} {read : Json → Except SettingRule α}
    {rule : SettingRule} :
    member? members name read = .error rule ↔
      ∃ json, members.get? name = some json ∧ read json = .error rule := by
  rw [member?]
  cases members.get? name with
  | none => simp
  | some json =>
      dsimp only
      cases hread : read json <;> simp [Except.map, hread]

/-- Applies the member of a setting. -/
def applySetting (members : Members) (setting : Setting) : Applying Unit :=
  applyMember members setting.name setting.read setting.store

/-- Applies the members behind the suffix. -/
def applyRest (members : Members) : Applying Unit := do
  applySetting members .outputDirectory
  applySetting members .dryRun
  applySetting members .noOverwrite
  applySetting members .headerLines

theorem apply_object (members : Members) :
    apply (.object members) = (do
      applySetting members .indent
      applySetting members .fileSuffix
      requireSuffix
      applyRest members) :=
  rfl

theorem run_applySetting (members : Members) (setting : Setting) (o : Options) :
    (applySetting members setting).run.run o =
      match member? members setting.name setting.read with
      | .error rule => (.error (.broken setting.name rule), o)
      | .ok none => (.ok (), o)
      | .ok (some v) => (.ok (), setting.store v o) := by
  rw [applySetting, applyMember, member?]
  cases members.get? setting.name with
  | none => rfl
  | some json =>
      dsimp only
      cases setting.read json <;> rfl

theorem run_requireSuffix (o : Options) :
    requireSuffix.run.run o =
      (if o.fileSuffix = "" then .error (.broken "fileSuffix" .nonEmptyText) else .ok (), o) := by
  have hget : (get : Applying Options).run.run o = (.ok o, o) := rfl
  rw [requireSuffix, run_bind, hget]
  dsimp only
  split <;> rfl

/-! ## What is stored -/

/-- Each option of `o'` is that of `o`, or what the member for it stands for. -/
def StoresRead (members : Members) (o o' : Options) : Prop :=
  ∀ setting : Setting, o'.value setting = o.value setting ∨
    ∃ json, members.get? setting.name = some json ∧ setting.read json = .ok (o'.value setting)

instance (members : Members) : IsPreorder Options (StoresRead members) where
  refl _ _ := .inl rfl
  trans o₁ o₂ o₃ h h' setting := by
    rcases h' setting with hkept | hread
    · rw [hkept]
      exact h setting
    · exact .inr hread

/-- Nothing but the option of a setting is changed by it, and this only to what is read. -/
theorem keeps_applySetting {R : Options → Options → Prop} [IsPreorder Options R]
    (hstore : ∀ v o, member? members setting.name setting.read = .ok (some v) →
      R o (setting.store v o)) : Keeps R (applySetting members setting).run := by
  intro o
  have hrun := run_applySetting members setting o
  cases hmember : member? members setting.name setting.read with
  | error rule =>
      rw [hmember] at hrun
      rw [hrun]
      exact refl_of R o
  | ok chosen =>
      rw [hmember] at hrun
      rw [hrun]
      cases chosen with
      | none => exact refl_of R o
      | some v => exact hstore v o hmember

theorem keeps_requireSuffix {R : Options → Options → Prop} [IsPreorder Options R] :
    Keeps R requireSuffix.run := by
  intro o
  rw [run_requireSuffix]
  exact refl_of R o

/-- Whatever the members behind the suffix keep, one by one, they keep together. -/
theorem keeps_applyRest {R : Options → Options → Prop} [IsPreorder Options R]
    (hsetting : ∀ setting : Setting, setting ≠ .indent → setting ≠ .fileSuffix →
      Keeps R (applySetting members setting).run) : Keeps R (applyRest members).run := by
  have hP := Keeps.compositional (R := R)
  refine hP.bind_run (hsetting _ nofun nofun) fun _ => ?_
  refine hP.bind_run (hsetting _ nofun nofun) fun _ => ?_
  exact hP.bind_run (hsetting _ nofun nofun) fun _ => hsetting _ nofun nofun

/-- Whether a document is accepted or refused, nothing is stored that is not read from it. -/
theorem keeps_apply (members : Members) :
    Keeps (StoresRead members) (apply (.object members)).run := by
  have hP := Keeps.compositional (R := StoresRead members)
  have hsetting (setting : Setting) :
      Keeps (StoresRead members) (applySetting members setting).run := by
    refine keeps_applySetting fun v o hv other => ?_
    by_cases hother : other = setting
    · subst hother
      rw [Setting.value_store]
      exact .inr (member?_eq_some_iff.1 hv)
    · exact .inl (Setting.value_store_of_ne hother v o)
  rw [apply_object]
  refine hP.bind_run (hsetting _) fun _ => ?_
  refine hP.bind_run (hsetting _) fun _ => ?_
  exact hP.bind_run keeps_requireSuffix fun _ => keeps_applyRest fun setting _ _ => hsetting setting

/-! ## What is refused -/

/-- The fault is found at a member that cannot be read, or it is that there is no suffix in the
options which are left. -/
def FoundIn (members : Members) (fault : SettingsFault) (left : Options) : Prop :=
  (∃ (setting : Setting) (rule : SettingRule), fault = .broken setting.name rule ∧
    ∃ json, members.get? setting.name = some json ∧ setting.read json = .error rule) ∨
  (fault = .broken "fileSuffix" .nonEmptyText ∧ left.fileSuffix = "")

/-- Every fault that a computation ends in is found in the members. -/
def FaultsIn (members : Members) (x : Applying α) : Prop :=
  ∀ o fault o', x.run.run o = (.error fault, o') → FoundIn members fault o'

theorem FaultsIn.bind {β : Type} {x : Applying α} {f : α → Applying β} (hx : FaultsIn members x)
    (hf : ∀ a, FaultsIn members (f a)) : FaultsIn members (x >>= f) := by
  intro o fault o' h
  obtain h | ⟨a, left, -, h⟩ := run_bind_eq_error_iff.1 h
  · exact hx o fault o' h
  · exact hf a left fault o' h

theorem faultsIn_applySetting (members : Members) (setting : Setting) :
    FaultsIn members (applySetting members setting) := by
  intro o fault o' h
  rw [run_applySetting] at h
  cases hmember : member? members setting.name setting.read with
  | error rule =>
      rw [hmember] at h
      cases h
      exact .inl ⟨setting, rule, rfl, member?_eq_error_iff.1 hmember⟩
  | ok chosen =>
      rw [hmember] at h
      cases chosen <;> cases h

theorem faultsIn_requireSuffix (members : Members) : FaultsIn members requireSuffix := by
  intro o fault o' h
  rw [run_requireSuffix] at h
  split at h
  · rename_i hempty
    cases h
    exact .inr ⟨rfl, hempty⟩
  · cases h

theorem faultsIn_apply (members : Members) : FaultsIn members (apply (.object members)) := by
  have hsetting := faultsIn_applySetting members
  have hrest : FaultsIn members (applyRest members) :=
    (hsetting _).bind fun _ => (hsetting _).bind fun _ => (hsetting _).bind fun _ => hsetting _
  rw [apply_object]
  exact (hsetting _).bind fun _ => (hsetting _).bind fun _ =>
    (faultsIn_requireSuffix members).bind fun _ => hrest

/-! ## The suffix -/

/-- The options that a document leaves, whether it is accepted or refused. -/
def optionsAfter (json : Json) (o : Options) : Options :=
  ((apply json).run.run o).2

/-- The suffix that a document stores. It comes to storing it unless there is a fault before it; the
document may be refused later, as it is for the empty suffix. -/
def storedSuffix? (json : Json) : Option String :=
  json.members?.bind fun members =>
    match member? members "indent" indentUnit with
    | .error _ => none
    | .ok _ => (members.get? "fileSuffix").bind Json.string?

theorem run_apply_of_members?_eq_none {json : Json} (h : json.members? = none) (o : Options) :
    (apply json).run.run o = (.error .notObject, o) := by
  rw [apply, h]
  rfl

theorem optionsAfter_of_members?_eq_none {json : Json} (h : json.members? = none) (o : Options) :
    optionsAfter json o = o := by
  rw [optionsAfter, run_apply_of_members?_eq_none h]

/-- Behind the suffix no member changes it. -/
theorem fileSuffix_applyRest (members : Members) (o : Options) :
    ((do requireSuffix; applyRest members : Applying Unit).run.run o).2.fileSuffix =
      o.fileSuffix := by
  let R (o o' : Options) : Prop := o'.fileSuffix = o.fileSuffix
  have : IsPreorder Options R := { refl := fun _ => rfl, trans := fun _ _ _ h h' => h'.trans h }
  have hrest : Keeps R (applyRest members).run := by
    apply keeps_applyRest
    intro setting _ hsetting
    apply keeps_applySetting
    intro v o _
    have hother : Setting.fileSuffix ≠ setting := Ne.symm hsetting
    exact Setting.value_store_of_ne hother v o
  exact (Keeps.compositional (R := R)).bind_run keeps_requireSuffix (fun _ => hrest) o

/-- A text is stored as the suffix, and then it is looked at. -/
theorem fileSuffix_applySuffix (members : Members) (o : Options) :
    ((do applySetting members .fileSuffix; requireSuffix; applyRest members :
      Applying Unit).run.run o).2.fileSuffix =
      ((members.get? "fileSuffix").bind Json.string?).getD o.fileSuffix := by
  rw [run_bind, run_applySetting]
  cases hmember : member? members Setting.fileSuffix.name Setting.fileSuffix.read with
  | error rule =>
      obtain ⟨json, hget, hread⟩ := member?_eq_error_iff.1 hmember
      have hnone : json.string? = none := by
        cases json <;> first | rfl | cases hread
      rw [show members.get? "fileSuffix" = some json from hget, Option.bind_some, hnone]
      rfl
  | ok chosen =>
      cases chosen with
      | none =>
          have hget : members.get? "fileSuffix" = none := member?_eq_none_iff.1 hmember
          rw [hget]
          exact fileSuffix_applyRest members o
      | some v =>
          obtain ⟨json, hget, hread⟩ := member?_eq_some_iff.1 hmember
          have hsome : json.string? = some v := by
            cases json <;> cases hread
            rfl
          rw [show members.get? "fileSuffix" = some json from hget, Option.bind_some, hsome]
          exact fileSuffix_applyRest members _

theorem fileSuffix_optionsAfter (json : Json) (o : Options) :
    (optionsAfter json o).fileSuffix = (storedSuffix? json).getD o.fileSuffix := by
  cases hmembers : json.members? with
  | none =>
      rw [optionsAfter_of_members?_eq_none hmembers, storedSuffix?, hmembers]
      rfl
  | some members =>
  obtain rfl := Json.eq_object_of_members? hmembers
  rw [optionsAfter, storedSuffix?, hmembers, Option.bind_some, apply_object, run_bind,
    run_applySetting]
  have hindent : member? members Setting.indent.name Setting.indent.read =
      member? members "indent" indentUnit := rfl
  rw [hindent]
  cases member? members "indent" indentUnit with
  | error rule => rfl
  | ok chosen =>
      cases chosen with
      | none => exact fileSuffix_applySuffix members o
      | some unit => exact fileSuffix_applySuffix members _

/-! ## Documents one after another -/

/-- The outcome of the last document, if each is applied to what the one before it left. -/
def applyInTurn (documents : List (String × Json)) (start : SettingsOutcome) : SettingsOutcome :=
  documents.foldl (fun before document =>
    applyDocument document.1 document.2 before.options before.diagnostics) start

/-- The last suffix that one of the documents stores. -/
def lastSuffix? (documents : List (String × Json)) : Option String :=
  (documents.filterMap fun document => storedSuffix? document.2).getLast?

theorem options_applyDocument (source : String) (json : Json) (o : Options) (ds : Diagnostics) :
    (applyDocument source json o ds).options = optionsAfter json o :=
  rfl

theorem fileSuffix_applyInTurn (documents : List (String × Json)) (start : SettingsOutcome) :
    (applyInTurn documents start).options.fileSuffix =
      (lastSuffix? documents).getD start.options.fileSuffix := by
  induction documents generalizing start with
  | nil => rfl
  | cons document documents ih =>
      have hfirst := fileSuffix_optionsAfter document.2 start.options
      rw [applyInTurn, List.foldl_cons, ← applyInTurn, ih, options_applyDocument, hfirst,
        lastSuffix?, lastSuffix?, List.filterMap_cons]
      cases storedSuffix? document.2 with
      | none => rfl
      | some suffix => rw [Option.getD_some, List.getLast?_cons, Option.getD_some]

/-- A text of spaces and tabs, at least one of them. -/
def IsIndentUnit (s : String) : Prop :=
  s ≠ "" ∧ ∀ c ∈ s.toList, c = ' ' ∨ c = '\t'

theorem isIndent_iff {s : String} : isIndent s = true ↔ IsIndentUnit s := by
  simp [isIndent, IsIndentUnit]

theorem isIndentUnit_of_indentOfWidth? {width : Int} {unit : String}
    (h : indentOfWidth? width = some unit) : IsIndentUnit unit := by
  rw [indentOfWidth?] at h
  split at h
  · rename_i hrange
    cases h
    -- A width is at least one, so there is a space.
    obtain ⟨count, hcount⟩ : ∃ count, width.toNat = count + 1 := ⟨width.toNat - 1, by omega⟩
    rw [IsIndentUnit, hcount, String.toList_ofList]
    refine ⟨?_, ?_⟩
    · intro hempty
      have hchars := congrArg String.toList hempty
      rw [String.toList_ofList] at hchars
      cases hchars
    · intro c hc
      exact .inl (List.eq_of_mem_replicate hc)
  · cases h

/-- What is read as an indent unit is one. -/
theorem isIndentUnit_of_indentUnit {json : Json} {unit : String} (h : indentUnit json = .ok unit) :
    IsIndentUnit unit := by
  rw [indentUnit] at h
  split at h
  · split at h
    · rename_i hwidth
      cases h
      exact isIndentUnit_of_indentOfWidth? hwidth
    · cases h
  · split at h
    · split at h
      · rename_i hindent
        cases h
        exact isIndent_iff.1 hindent
      · cases h
    · cases h

/-- An indent unit stays one under any document. -/
theorem isIndentUnit_optionsAfter (h : IsIndentUnit o.indentUnit) (json : Json) :
    IsIndentUnit (optionsAfter json o).indentUnit := by
  cases hmembers : json.members? with
  | none =>
      rw [optionsAfter_of_members?_eq_none hmembers]
      exact h
  | some members =>
      obtain rfl := Json.eq_object_of_members? hmembers
      rcases keeps_apply members o .indent with hkept | ⟨json, -, hread⟩
      · have hunit : (optionsAfter (.object members) o).indentUnit = o.indentUnit := hkept
        rw [hunit]
        exact h
      · exact isIndentUnit_of_indentUnit hread

theorem isIndentUnit_applyInTurn {start : SettingsOutcome}
    (h : IsIndentUnit start.options.indentUnit) (documents : List (String × Json)) :
    IsIndentUnit (applyInTurn documents start).options.indentUnit := by
  induction documents generalizing start with
  | nil => exact h
  | cons document documents ih => exact ih (isIndentUnit_optionsAfter h document.2)

/-- Accepted settings leave a suffix. -/
theorem fileSuffix_ne_of_accepted {source : String} {json : Json} {ds : Diagnostics}
    (h : (applyDocument source json o ds).result = .ok ()) :
    (optionsAfter json o).fileSuffix ≠ "" := by
  have hrun : ((apply json).run.run o).1 = .ok () := mapError_eq_ok_iff.1 h
  cases hmembers : json.members? with
  | none =>
      rw [run_apply_of_members?_eq_none hmembers] at hrun
      cases hrun
  | some members =>
      obtain rfl := Json.eq_object_of_members? hmembers
      obtain ⟨c, -, hne, hleft⟩ := apply_eq_ok_iff.1 (Prod.ext hrun rfl)
      have hleft : c.onto o = optionsAfter (.object members) o := hleft
      rw [← hleft]
      exact hne

/-- A setting that is refused leaves its option as it was, unless it is the suffix and empty. -/
theorem value_optionsAfter_of_refused {source : String} {json : Json} {ds : Diagnostics}
    {rule : SettingRule}
    (h : (applyDocument source json o ds).result =
      .error (.invalid source (.broken setting.name rule))) :
    (optionsAfter json o).value setting = o.value setting ∨
      setting = .fileSuffix ∧ rule = .nonEmptyText ∧ (optionsAfter json o).fileSuffix = "" := by
  obtain ⟨fault, hrun, hfault⟩ := mapError_eq_error_iff.1 h
  cases hfault
  have hrun : ((apply json).run.run o).1 = .error (.broken setting.name rule) := hrun
  cases hmembers : json.members? with
  | none =>
      rw [run_apply_of_members?_eq_none hmembers] at hrun
      cases hrun
  | some members =>
      obtain rfl := Json.eq_object_of_members? hmembers
      rcases faultsIn_apply members o _ _ (Prod.ext hrun rfl) with
        ⟨other, rule, hfault, json, hget, hread⟩ | ⟨hfault, hempty⟩
      · obtain ⟨hname, rfl⟩ := SettingsFault.broken.inj hfault
        obtain rfl := Setting.name_injective hname
        left
        -- The member cannot be read, so it is not what was stored.
        refine (keeps_apply members o setting).resolve_right ?_
        rintro ⟨json', hget', hread'⟩
        cases hget.symm.trans hget'
        cases hread.symm.trans hread'
      · obtain ⟨hname, rfl⟩ := SettingsFault.broken.inj hfault
        right
        exact ⟨Setting.name_injective hname, rfl, hempty⟩

/-- Documents are applied one after another to options that have an indent unit and a suffix. After
each of them, be it accepted or refused, the indent unit is one. There is a suffix exactly when the
last one that was stored is not empty, and this is so after a document that is accepted. The option
of a setting that is refused is as before, but for the empty suffix, which is stored. -/
theorem applyInTurn_keeps_iff (hsuffix : o.fileSuffix ≠ "") (hindent : IsIndentUnit o.indentUnit)
    (documents : List (String × Json)) (source : String) (json : Json) (ds : Diagnostics) :
    let before := applyInTurn documents ⟨.ok (), o, ds⟩
    let outcome := applyInTurn (documents ++ [(source, json)]) ⟨.ok (), o, ds⟩
    IsIndentUnit outcome.options.indentUnit ∧
    (outcome.options.fileSuffix ≠ "" ↔ lastSuffix? (documents ++ [(source, json)]) ≠ some "") ∧
    (outcome.result = .ok () → outcome.options.fileSuffix ≠ "") ∧
    ∀ (setting : Setting) (rule : SettingRule),
      outcome.result = .error (.invalid source (.broken setting.name rule)) →
        outcome.options.value setting = before.options.value setting ∨
          setting = .fileSuffix ∧ rule = .nonEmptyText ∧ outcome.options.fileSuffix = "" := by
  intro before outcome
  have houtcome : outcome = applyDocument source json before.options before.diagnostics := by
    show applyInTurn (documents ++ [(source, json)]) _ = _
    rw [applyInTurn, List.foldl_concat]
    rfl
  refine ⟨isIndentUnit_applyInTurn hindent _, ?_, ?_, ?_⟩
  · rw [fileSuffix_applyInTurn]
    cases lastSuffix? (documents ++ [(source, json)]) with
    | none => simpa using hsuffix
    | some suffix => simp
  · rw [houtcome]
    exact fileSuffix_ne_of_accepted
  · rw [houtcome]
    intro setting rule
    exact value_optionsAfter_of_refused

/-- A settings document that empties the suffix. -/
def bareSettings : Json :=
  .object [("fileSuffix", .string "")]

/-- A settings document that is accepted wherever there is a suffix. -/
def tabbedSettings : Json :=
  .object [("dryRun", .bool true), ("indent", .string "\t")]

/-- The second document is refused for the suffix that the first one left. Its indent unit, which
comes before the suffix, is stored, and its switch is not. -/
theorem applyInTurn_keeps_iff_bareSettings :
    (({} : Options).fileSuffix ≠ "" ∧ IsIndentUnit ({} : Options).indentUnit) ∧
    let outcome := applyInTurn ([("a.json", bareSettings)] ++ [("b.json", tabbedSettings)])
      ⟨.ok (), {}, []⟩
    outcome.result = .error (.invalid "b.json" (.broken "fileSuffix" .nonEmptyText)) ∧
    outcome.options = { indentUnit := "\t", fileSuffix := "" } ∧
    IsIndentUnit outcome.options.indentUnit ∧
    ¬ outcome.options.fileSuffix ≠ "" := by
  have hsuffix : ({} : Options).fileSuffix ≠ "" := by decide
  have hindent : IsIndentUnit ({} : Options).indentUnit := isIndent_iff.1 (by decide)
  obtain ⟨hunit, hlast, -, -⟩ := applyInTurn_keeps_iff hsuffix hindent [("a.json", bareSettings)]
    "b.json" tabbedSettings []
  refine ⟨⟨hsuffix, hindent⟩, rfl, rfl, hunit, ?_⟩
  rw [hlast]
  exact fun hne => hne rfl

/-- A setting that is refused can be stored. -/
theorem exists_refused_setting_stored :
    ∃ (o : Options) (json : Json), o.fileSuffix ≠ "" ∧ IsIndentUnit o.indentUnit ∧
      (applyDocument "s" json o []).result =
        .error (.invalid "s" (.broken "fileSuffix" .nonEmptyText)) ∧
      (applyDocument "s" json o []).options.fileSuffix = "" :=
  ⟨{}, bareSettings, by decide, isIndent_iff.1 (by decide), rfl, rfl⟩

end Settings

end PklBindings
