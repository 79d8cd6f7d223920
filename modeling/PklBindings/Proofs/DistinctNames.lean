import PklBindings.Proofs.Collisions
import PklBindings.Proofs.Generation
import PklBindings.Proofs.MemberOrder
import PklBindings.Reflection.Decoder

/-!
# Names in generated modules

Two declarations of a generated module get one name only if they have one qualified name, and of
classes and enumerations no two have. A type alias, however, may have the qualified name of
another declaration: then both are written under the name of the binding that the table has first.
So the names of a generated module are distinct exactly when no type alias shares its qualified
name (`names_nodup_iff_aliasesApart`).
-/

namespace PklBindings

/-- No type alias has the qualified name of another declaration. -/
def Module.AliasesApart (m : Module) : Prop :=
  m.declarations.Pairwise fun d e =>
    d.kind = .typeAlias ∨ e.kind = .typeAlias → d.qualifiedName ≠ e.qualifiedName

namespace Module

variable {m : Module} {target : Target} {made members : List Member}

/-- The name of every member comes from a binding of the namespace under the key of the member. -/
theorem exists_binding_of_members (hbound : ∀ d ∈ m.declarations,
      ∃ b, target.bindings.find? d.qualifiedName = some b ∧ b.space = target.space)
    (h : m.members target = .ok made) :
    ∀ member ∈ made, ∃ b ∈ target.bindings.entries, b.space = target.space ∧
      b.source = member.key ∧ target.bindings.find? member.key = some b ∧ member.name = b.name := by
  intro member hmember
  obtain ⟨⟨d, i⟩, hd, hstems⟩ := exists_mem_zip_of_mem_right (forall₂_stems_of_members h) hmember
  obtain ⟨b, hfind, hname⟩ := hstems.bound
  obtain ⟨b', hfind', hspace⟩ := hbound d (List.fst_mem_of_mem_zipIdx (List.of_mem_zip hd).1)
  obtain rfl : b = b' := by simpa [hfind] using hfind'
  rw [hstems.key_eq]
  exact ⟨b, List.mem_of_find?_eq_some hfind, hspace, BindingTable.source_of_find? hfind, hfind,
    hname⟩

/-- In a module without collisions, members share a name exactly when they share a key. -/
theorem name_eq_iff_key_eq (harranged : m.Arranged target members)
    (h : m.members target = .ok made) {a b : Member} (ha : a ∈ made) (hb : b ∈ made) :
    a.name = b.name ↔ a.key = b.key := by
  obtain ⟨x, hx, hxspace, hxsource, hxfind, hxname⟩ :=
    exists_binding_of_members harranged.bound h a ha
  obtain ⟨y, hy, hyspace, hysource, hyfind, hyname⟩ :=
    exists_binding_of_members harranged.bound h b hb
  constructor
  · -- Two bindings of one name in the namespace would collide.
    intro hname
    have hxy : x = y := Collision.eq_of_inSpace_eq_nil harranged.no_collisions hx hy hxspace hyspace
      (by rw [← hxname, ← hyname, hname])
    rw [← hxsource, ← hysource, hxy]
  · -- One key finds one binding, whoever asks.
    intro hkey
    rw [hkey, hyfind, Option.some.injEq] at hxfind
    rw [hxname, hyname, hxfind]

/-- The same of the declarations: no type alias shares its key. -/
theorem aliasesApart_iff (h : m.members target = .ok made) :
    m.AliasesApart ↔
      made.Pairwise fun a b => a.kind = .typeAlias ∨ b.kind = .typeAlias → a.key ≠ b.key := by
  have hdeclarations := List.pairwise_map (f := fun d : Declaration => (d.kind, d.qualifiedName))
    (R := fun x y => x.1 = .typeAlias ∨ y.1 = .typeAlias → x.2 ≠ y.2) (l := m.declarations)
  rw [map_kind_key_of_members h, List.pairwise_map] at hdeclarations
  exact hdeclarations.symm

/-- The names of members are distinct exactly when no type alias shares its key. -/
theorem names_nodup_iff (harranged : m.Arranged target members) :
    (members.map (·.name)).Nodup ↔ m.AliasesApart := by
  obtain ⟨made, hmade, hordered⟩ := harranged.exists_made
  obtain ⟨hperm, hkeys⟩ := Member.perm_of_ordered hordered
  rw [(hperm.map _).nodup_iff, aliasesApart_iff hmade, List.nodup_iff_pairwise_ne,
    List.pairwise_map]
  -- Classes and enumerations have distinct keys in any case.
  have hclasses : made.Pairwise fun a b =>
      a.isTypeAlias = false → b.isTypeAlias = false → a.key ≠ b.key := by
    rw [Member.DistinctKeys, List.Nodup, List.pairwise_map, List.pairwise_filter] at hkeys
    simpa using hkeys
  constructor
  · intro hnames
    refine hnames.imp_of_mem fun ha hb hne _ hkey => hne ?_
    exact (name_eq_iff_key_eq harranged hmade ha hb).2 hkey
  · intro hapart
    refine (hapart.and hclasses).imp_of_mem fun {a b} ha hb hab hname => ?_
    have hkey := (name_eq_iff_key_eq harranged hmade ha hb).1 hname
    by_cases halias : a.kind = .typeAlias ∨ b.kind = .typeAlias
    · exact hab.1 halias hkey
    · rw [not_or] at halias
      exact hab.2 (by simp [Member.isTypeAlias, halias.1]) (by simp [Member.isTypeAlias, halias.2])
        hkey

end Module

/-! ## Two aliases of one name -/

/-- A module that declares the type alias `A` twice. -/
def twinModule : Module where
  name := "m"
  declarations := [
    { kind := .moduleClass, name := "M", moduleName := "m", location := ⟨"s", 1, 1⟩ },
    { kind := .typeAlias, name := "A", moduleName := "m", location := ⟨"s", 1, 1⟩,
      aliasedType := .primitive ⟨"s", 1, 1⟩ .int },
    { kind := .typeAlias, name := "A", moduleName := "m", location := ⟨"s", 1, 1⟩,
      aliasedType := .primitive ⟨"s", 1, 1⟩ .string }]

/-- The module with the two aliases renamed apart. -/
def twinSchema : Schema where
  modules := [twinModule]
  bindings := ⟨[
    { kind := .moduleClass, source := "m", location := ⟨"s", 1, 1⟩, space := "m",
      name := "ModuleClass" },
    { kind := .typeAlias, source := "m#A", location := ⟨"s", 1, 1⟩, space := "m", name := "A1" },
    { kind := .typeAlias, source := "m#A", location := ⟨"s", 1, 1⟩, space := "m", name := "A2" }]⟩

/-- A type alias as it stands in a document, with the Python name it asks for. -/
def twinAlias (pythonName type : String) : Json :=
  .object [("kind", .string "typealias"), ("name", .string "A"),
    ("pythonName", .string pythonName),
    ("aliasedType", .object [("kind", .string "primitive"), ("name", .string type)])]

/-- The document of `twinSchema`. -/
def twinDocument : Json :=
  .object [("modules", .array [.object [("name", .string "m"), ("declarations", .array [
    .object [("kind", .string "module"), ("name", .string "M")],
    twinAlias "A1" "Int", twinAlias "A2" "String"])]])]

theorem generate_twinSchema : ∃ document ds members,
    (twinSchema.generate {}).run.run [] = (.ok [document], ds) ∧
      Written twinSchema.bindings {} twinModule document members ∧
      members.map (·.name) = ["A1", "A1", "ModuleClass"] := by
  obtain ⟨members, harranged, hends, hnames⟩ : ∃ members,
      twinModule.Arranged (Module.target twinSchema.bindings {} "m") members ∧
        Document.endsWithModuleClass members = true ∧
        members.map (·.name) = ["A1", "A1", "ModuleClass"] := by
    refine ⟨_, ⟨?_, rfl, (Collision.all_eq_nil_iff _).2 (by decide), _, rfl,
      (Member.ordered_of_sorted (by decide)).trans rfl⟩, rfl, rfl⟩
    simp only [twinModule, List.forall_mem_cons]
    exact ⟨⟨_, rfl, rfl⟩, ⟨_, rfl, rfl⟩, ⟨_, rfl, rfl⟩, by simp⟩
  obtain ⟨document, hspace, hwritten⟩ := Written.exists_of_arranged rfl harranged hends
  have hrun : (Schema.documentsFrom twinSchema.bindings {} [] twinSchema.modules).run.run [] =
      (.ok [document], twinModule.hiddenWarnings ++ [twinModule.generatedNote document]) :=
    Schema.run_documentsFrom_cons_eq_ok_iff.2
      ⟨⟨"m", _, "m"⟩, document, [], members, rfl, rfl, hspace, hwritten, rfl⟩
  exact ⟨document, _, members, Schema.run_generate_eq_ok_iff.2 ⟨by decide, hrun⟩, hwritten, hnames⟩

/-! ## Distinct names -/

/-- In the document of a module the names are distinct exactly when no type alias of the module
has the qualified name of another declaration. -/
theorem names_nodup_iff_aliasesApart {schema : Schema} {options : Options} {ds ds' : Diagnostics}
    {documents : List Document}
    (h : (schema.generate options).run.run ds = (.ok documents, ds')) :
    List.Forall₂ (fun m document => ∃ members,
        Written schema.bindings options m document members ∧
          ((members.map (·.name)).Nodup ↔ m.AliasesApart))
      schema.modules documents := by
  refine (Schema.forall₂_written_of_generate h).imp fun m document hwritten => ?_
  obtain ⟨members, hwritten⟩ := hwritten
  have harranged := Module.orderedMembers_eq_ok_iff.1 hwritten.members_eq
  exact ⟨members, hwritten, Module.names_nodup_iff harranged⟩

/-- The two aliases named `A` do not stand apart, and their document binds a name twice. -/
theorem names_nodup_iff_aliasesApart_twinSchema :
    ∃ documents ds, (twinSchema.generate {}).run.run [] = (.ok documents, ds) ∧
      List.Forall₂ (fun m document => ∃ members,
          Written twinSchema.bindings {} m document members ∧
            ((members.map (·.name)).Nodup ↔ m.AliasesApart))
        twinSchema.modules documents := by
  obtain ⟨document, ds, members, hgenerate, -, -⟩ := generate_twinSchema
  exact ⟨[document], ds, hgenerate, names_nodup_iff_aliasesApart hgenerate⟩

/-- A document that is read and generated without error can bind a name twice. -/
theorem exists_names_not_nodup : Schema.ofJson "s" twinDocument = .ok twinSchema ∧
    ∃ document ds members, (twinSchema.generate {}).run.run [] = (.ok [document], ds) ∧
      Written twinSchema.bindings {} twinModule document members ∧
      ¬ (members.map (·.name)).Nodup := by
  refine ⟨rfl, ?_⟩
  obtain ⟨document, ds, members, hgenerate, hwritten, hnames⟩ := generate_twinSchema
  refine ⟨document, ds, members, hgenerate, hwritten, ?_⟩
  rw [hnames]
  decide

end PklBindings
