import PklBindings.Proofs.Acceptance
import PklBindings.Proofs.Collisions
import PklBindings.Proofs.NameAgreement
import PklBindings.Proofs.RepresentableSchemas
import PklBindings.Proofs.SchemaRoundTrip

/-!
# Default bindings spelled out

A document that gives no bindings means the same with its default bindings spelled out
(`ofJson_withBindings`): it is read to the same modules, the bindings then stand in the document
itself instead of the files of the modules, and the same is generated. For what is generated, the
files in which bindings stand are of no account (`run_generate_inFile_eq_ok_iff`).
-/

namespace PklBindings

open Json (Path Members)

/-! ## The files in which bindings stand -/

/-- The binding, as if it stood in the file. -/
def Binding.inFile (b : Binding) (file : String) : Binding :=
  { b with location := { b.location with file := file } }

/-- The bindings, as if they stood in the file. -/
def BindingTable.inFile (table : BindingTable) (file : String) : BindingTable :=
  ⟨table.entries.map (·.inFile file)⟩

section InFile

variable {table : BindingTable} {file : String}

theorem BindingTable.find?_inFile (ref : String) :
    (table.inFile file).find? ref = (table.find? ref).map (·.inFile file) := by
  rw [find?, inFile, List.find?_map]
  rfl

theorem Target.agreeOn_inFile (refs : List String) (options : Options) (space : String) :
    Target.AgreeOn refs (Module.target table options space)
      (Module.target (table.inFile file) options space) where
  space_eq := rfl
  indentUnit_eq := rfl
  fileSuffix_eq := rfl
  boundName_eq := by
    intro ref _
    rw [Module.target, Module.target, BindingTable.find?_inFile, Option.map_map]
    rfl

theorem Collision.inSpace_inFile_eq_nil_iff (space : String) :
    Collision.inSpace (table.inFile file) space = [] ↔ Collision.inSpace table space = [] := by
  have hnames : ((table.inFile file).inSpace space).map Binding.boundName =
      (table.inSpace space).map Binding.boundName := by
    rw [BindingTable.inSpace, BindingTable.inFile, List.filter_map, List.map_map]
    rfl
  rw [inSpace, inSpace, all_eq_nil_iff, all_eq_nil_iff, hnames]

theorem Module.space_inFile (m : Module) : m.space (table.inFile file) = m.space table := by
  rw [space, space]
  cases m.moduleClass? with
  | none => rfl
  | some d =>
      simp only [BindingTable.find?_inFile]
      cases table.find? d.qualifiedName <;> rfl

theorem written_inFile_iff {options : Options} {m : Module} {document : Document}
    {members : List Member} :
    Written (table.inFile file) options m document members ↔
      Written table options m document members := by
  have hagree : Target.AgreeOn m.mentions (Module.target table options document.space)
      (Module.target (table.inFile file) options document.space) := Target.agreeOn_inFile _ _ _
  have hmembers : m.orderedMembers (Module.target table options document.space) = .ok members ↔
      m.orderedMembers (Module.target (table.inFile file) options document.space) = .ok members :=
    Module.orderedMembers_eq_ok_congr hagree (Collision.inSpace_inFile_eq_nil_iff _).symm
  have hdocument := Document.ofMembers_congr hagree (m.header options) m.name
    ((m.moduleClass?.map (·.name)).getD "") members
  constructor
  · rintro ⟨hspace, hordered, hof⟩
    exact ⟨by rwa [Module.space_inFile] at hspace, hmembers.2 hordered, by rwa [hdocument]⟩
  · rintro ⟨hspace, hordered, hof⟩
    exact ⟨by rwa [Module.space_inFile], hmembers.1 hordered, by rwa [← hdocument]⟩

theorem run_documentsFrom_inFile_eq_ok_iff {options : Options} {ms : List Module}
    {earlier : List Claim} {ds ds' : Diagnostics} {documents : List Document} :
    (Schema.documentsFrom (table.inFile file) options earlier ms).run.run ds =
        (.ok documents, ds') ↔
      (Schema.documentsFrom table options earlier ms).run.run ds = (.ok documents, ds') := by
  induction ms generalizing earlier ds documents with
  | nil => exact Iff.rfl
  | cons m ms ih =>
      have hclaim : m.claim (table.inFile file) options earlier =
          m.claim table options earlier := by
        rw [Module.claim, Module.claim, Module.space_inFile]
      simp only [Schema.run_documentsFrom_cons_eq_ok_iff, hclaim, written_inFile_iff, ih]

/-- The same is generated, with the same remarks. -/
theorem run_generate_inFile_eq_ok_iff {modules : List Module} {options : Options}
    {ds ds' : Diagnostics} {documents : List Document} :
    ((Schema.mk modules (table.inFile file)).generate options).run.run ds =
        (.ok documents, ds') ↔
      ((Schema.mk modules table).generate options).run.run ds = (.ok documents, ds') := by
  rw [Schema.run_generate_eq_ok_iff, Schema.run_generate_eq_ok_iff,
    run_documentsFrom_inFile_eq_ok_iff]

end InFile

/-! ## What a session holds -/

namespace Reflection

/-- Each of the bindings stands at a position that counts from one, in whatever file. -/
def Positioned (bindings : List Binding) : Prop :=
  ∀ b ∈ bindings, b.location.StandsIn b.location.file

/-- What every item keeps of the session, the items of an array keep. -/
theorem invariant_of_readItems {α : Type} {read : Path → Json → Session α}
    {P : List Binding → Prop}
    (hread : ∀ {path json a s s'}, (read path json).run.run s = (.ok a, s') → P s → P s')
    {path : Path} {items : List Json} {as : List α} {s s' : List Binding}
    (h : (Json.readItems path items read).run.run s = (.ok as, s')) (hs : P s) : P s' := by
  rw [Json.readItems] at h
  generalize items.zipIdx = places at h
  induction places generalizing s as with
  | nil =>
      cases h
      exact hs
  | cons place places ih =>
      obtain ⟨a, others, t, rfl, hfirst, hothers⟩ := run_readItems_cons_eq_ok_iff.1 h
      exact ih (hread hfirst hs) hothers

theorem positioned_of_declarationIn {moduleName file space : String} {path : Path} {json : Json}
    {d : Declaration} {s s' : List Binding}
    (h : (declarationIn moduleName file space path json).run.run s = (.ok d, s'))
    (hs : Positioned s) : Positioned s' := by
  obtain ⟨d', t, hd, h⟩ := run_bind_eq_ok_iff.1 h
  obtain ⟨requested, t', hrequested, h⟩ := run_bind_eq_ok_iff.1 h
  obtain ⟨hread, rfl⟩ := run_liftExcept_eq_ok_iff.1 hd
  obtain ⟨-, rfl⟩ := run_liftExcept_eq_ok_iff.1 hrequested
  cases h
  obtain ⟨-, hline, hcolumn⟩ := (representable_of_declaration hread).location
  intro b hb
  rcases List.mem_append.1 hb with hb | hb
  · exact hs b hb
  · obtain rfl := List.mem_singleton.1 hb
    exact ⟨rfl, hline, hcolumn⟩

theorem positioned_of_moduleIn {source : String} {path : Path} {json : Json} {m : Module}
    {s s' : List Binding} (h : (moduleIn source path json).run.run s = (.ok m, s'))
    (hs : Positioned s) : Positioned s' := by
  obtain ⟨members, t, hmembers, h⟩ := run_bind_eq_ok_iff.1 h
  obtain ⟨⟨name, uri, space⟩, t', hhead, h⟩ := run_bind_eq_ok_iff.1 h
  obtain ⟨items, t'', hitems, h⟩ := run_bind_eq_ok_iff.1 h
  obtain ⟨-, rfl⟩ := run_liftExcept_eq_ok_iff.1 hmembers
  obtain ⟨-, rfl⟩ := run_liftExcept_eq_ok_iff.1 hhead
  obtain ⟨-, rfl⟩ := run_liftExcept_eq_ok_iff.1 hitems
  obtain ⟨declarations, t, hdeclarations, h⟩ := run_bind_eq_ok_iff.1 h
  cases h
  exact invariant_of_readItems positioned_of_declarationIn hdeclarations hs

/-! ## Documents with and without bindings -/

/-- How a document is read that gives no bindings: the table is what the session holds after the
modules. -/
theorem schema_eq_ok_of_withoutBindings {source : String} {json : Json} {schema : Schema}
    {s s' : List Binding} (h : (Reflection.schema source json).run.run s = (.ok schema, s'))
    (hwithout : WithoutBindings json) :
    ∃ members items, json = .object members ∧ moduleItems members = .ok items ∧
      (Json.readItems (.member .root "modules") items (moduleIn source)).run.run [] =
        (.ok schema.modules, schema.bindings.entries) := by
  obtain ⟨members, items, t, hjson, hitems, hmodules, hderived, -⟩ := exists_modules_of_schema h
  obtain rfl := hderived hwithout
  exact ⟨members, items, hjson, hitems, hmodules⟩

/-- How a document is read that gives bindings: the modules are read all the same. -/
theorem schema_eq_ok_of_bindings {source : String} {members : Members}
    {items given : List Json} {modules : List Module} {t bindings : List Binding}
    (hitems : moduleItems members = .ok items)
    (hmodules : (Json.readItems (.member .root "modules") items (moduleIn source)).run.run [] =
      (.ok modules, t))
    (hgiven : members.get? "mappings" = some (.array given))
    (hbindings : bindingsFrom source [] given = .ok bindings) (s : List Binding) :
    (Reflection.schema source (.object members)).run.run s =
      (.ok ⟨modules, ⟨bindings⟩⟩, []) := by
  refine run_bind_eq_ok_iff.2 ⟨(), [], rfl, ?_⟩
  refine run_bind_eq_ok_iff.2 ⟨members, [], rfl, ?_⟩
  refine run_bind_eq_ok_iff.2 ⟨items, [], run_liftExcept_eq_ok_iff.2 ⟨hitems, rfl⟩, ?_⟩
  refine run_bind_eq_ok_iff.2 ⟨modules, t, hmodules, ?_⟩
  rw [hgiven]
  have hread : members.optionalItems .root "mappings" = .ok given :=
    Members.optionalItems_eq_ok_iff.2 (.inl hgiven)
  refine run_bind_eq_ok_iff.2 ⟨given, t, run_liftExcept_eq_ok_iff.2 ⟨hread, rfl⟩, ?_⟩
  refine run_bind_eq_ok_iff.2 ⟨bindings, t, run_liftExcept_eq_ok_iff.2 ⟨hbindings, rfl⟩, ?_⟩
  rfl

/-- Bindings are read back as bindings of the document, wherever they stood. -/
theorem bindingsFrom_toJson_inFile {source : String} {bindings : List Binding}
    (hnodup : (sources bindings).Nodup) (hpositioned : Positioned bindings) :
    bindingsFrom source [] (bindings.map Binding.toJson) =
      .ok (bindings.map (·.inFile source)) := by
  -- The file of a binding is not written down.
  have hwritten : bindings.map Binding.toJson =
      (bindings.map (·.inFile source)).map Binding.toJson := by
    rw [List.map_map]
    rfl
  rw [hwritten]
  refine bindingsFrom_toJson ?_ fun b hb => ?_
  · rw [List.nil_append, sources, List.map_map]
    exact hnodup
  · obtain ⟨derived, hderived, rfl⟩ := List.mem_map.1 hb
    obtain ⟨-, hline, hcolumn⟩ := hpositioned derived hderived
    exact ⟨rfl, hline, hcolumn⟩

end Reflection

/-- The document with bindings spelled out behind its other members. -/
def Json.withBindings (bindings : List Binding) : Json → Json
  | .object members =>
    .object (members ++ [("mappings", .array (bindings.map Binding.toJson))])
  | json => json

/-- A document without bindings, no two declarations of which have one name, with its default
bindings spelled out: it is read, to the same modules and to the same bindings but for their file,
and the same is generated with the same remarks. -/
theorem Schema.ofJson_withBindings {source : String} {json : Json} {schema : Schema}
    (h : Schema.ofJson source json = .ok schema) (hwithout : Reflection.WithoutBindings json)
    (hnodup : (schema.modules.flatMap Module.qualifiedNames).Nodup) :
    ∃ schema', Schema.ofJson source (json.withBindings schema.bindings.entries) = .ok schema' ∧
      schema'.modules = schema.modules ∧
      schema'.bindings = schema.bindings.inFile source ∧
      ∀ options ds documents ds',
        (schema'.generate options).run.run ds = (.ok documents, ds') ↔
          (schema.generate options).run.run ds = (.ok documents, ds') := by
  have hsources := sources_of_ofJson h hwithout
  obtain ⟨s, hrun⟩ := run_schema_of_ofJson h
  obtain ⟨members, items, rfl, hitems, hmodules⟩ :=
    Reflection.schema_eq_ok_of_withoutBindings hrun hwithout
  have hnone : Members.get? members "mappings" = none := hwithout members rfl
  have hpositioned : Reflection.Positioned schema.bindings.entries :=
    Reflection.invariant_of_readItems Reflection.positioned_of_moduleIn hmodules (by
      simp [Reflection.Positioned])
  have hbindings : Reflection.bindingsFrom source []
      (schema.bindings.entries.map Binding.toJson) = .ok (schema.bindings.inFile source).entries :=
    Reflection.bindingsFrom_toJson_inFile (hsources ▸ hnodup) hpositioned
  -- The new member stands behind all others, which are found as before.
  have hitems' : Reflection.moduleItems (members ++
      [("mappings", .array (schema.bindings.entries.map Binding.toJson))]) = .ok items := by
    rw [Reflection.moduleItems_eq_ok_iff] at hitems ⊢
    simpa using hitems
  have hread := Reflection.schema_eq_ok_of_bindings hitems' hmodules (by simp [hnone]) hbindings []
  refine ⟨⟨schema.modules, schema.bindings.inFile source⟩, ?_, rfl, rfl, fun _ _ _ _ =>
    run_generate_inFile_eq_ok_iff⟩
  rw [ofJson, mapError_eq_ok_iff]
  exact congrArg Prod.fst hread

/-! ## A renamed class -/

/-- A module in a file of its own, with a class that goes by another name. -/
def renamedSchema : Schema where
  modules := [
    { name := "m"
      uri := "m.pkl"
      declarations := [
        { kind := .moduleClass, name := "M", moduleName := "m", location := ⟨"m.pkl", 1, 1⟩ },
        { kind := .ordinaryClass, name := "A", moduleName := "m", location := ⟨"m.pkl", 3, 5⟩ }] }]
  bindings := ⟨[
    { kind := .moduleClass, source := "m", location := ⟨"m.pkl", 1, 1⟩, space := "out",
      name := "ModuleClass" },
    { kind := .ordinaryClass, source := "m#A", location := ⟨"m.pkl", 3, 5⟩, space := "out",
      name := "B" }]⟩

/-- The document of `renamedSchema`, without bindings. -/
def renamedDocument : Json :=
  .object [("modules", .array [
    .object [("name", .string "m"), ("uri", .string "m.pkl"), ("namespace", .string "out"),
      ("declarations", .array [
        .object [("kind", .string "module"), ("name", .string "M")],
        .object [("kind", .string "class"), ("name", .string "A"), ("pythonName", .string "B"),
          ("location", .object [("line", .number (.integer 3)),
            ("column", .number (.integer 5))])]])]])]

/-- The bindings of the two classes may be spelled out. -/
theorem ofJson_withBindings_renamedSchema :
    Schema.ofJson "s" renamedDocument = .ok renamedSchema ∧
      Reflection.WithoutBindings renamedDocument ∧
      (renamedSchema.modules.flatMap Module.qualifiedNames).Nodup ∧
      ∃ schema', Schema.ofJson "s" (renamedDocument.withBindings renamedSchema.bindings.entries) =
          .ok schema' ∧
        schema'.modules = renamedSchema.modules ∧
        schema'.bindings = renamedSchema.bindings.inFile "s" ∧
        ∀ options ds documents ds',
          (schema'.generate options).run.run ds = (.ok documents, ds') ↔
            (renamedSchema.generate options).run.run ds = (.ok documents, ds') := by
  have hread : Schema.ofJson "s" renamedDocument = .ok renamedSchema := rfl
  have hwithout : Reflection.WithoutBindings renamedDocument := by
    intro members hmembers
    cases hmembers
    rfl
  have hnodup : (renamedSchema.modules.flatMap Module.qualifiedNames).Nodup := by decide
  exact ⟨hread, hwithout, hnodup, Schema.ofJson_withBindings hread hwithout hnodup⟩

end PklBindings
