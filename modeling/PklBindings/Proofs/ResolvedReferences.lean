import PklBindings.Proofs.Collisions
import PklBindings.Proofs.Generation
import PklBindings.Proofs.MemberOrder
import PklBindings.Proofs.OpenLines
import PklBindings.Proofs.ReadSchema

/-!
# References between generated modules

When a schema document gives no bindings, no generated module refers to a name or imports a module
that the run does not generate: a reference stands for a member of one of the documents, and it is
spelt by the name of this member, behind the name of the document's file when that is another
document, which is imported (`references_resolve`).
-/

namespace PklBindings

open AnnotationPart

/-- The text of the document holds lines one below the other. -/
def Document.Shows (document : Document) (indentUnit : String) (lines : List BlockLine) : Prop :=
  ∃ all, lines <:+: all ∧ document.text = String.join (all.map (·.render indentUnit))

/-- A document defines a declaration of the schema under a binding. -/
structure Document.Defines (document : Document) (schema : Schema) (options : Options)
    (ref : String) (b : Binding) : Prop where
  space_eq : document.space = b.space
  exists_member : ∃ m ∈ schema.modules, ∃ members,
    Written schema.bindings options m document members ∧
      ∃ member ∈ members, member.key = ref ∧ member.name = b.name

/-- How a member of `document` spells a name that `other` defines: as it is in the same document,
and else behind the name of the file of `other`, which the member imports. -/
inductive Document.Spells (document other : Document) (indentUnit : String) (units : List String)
    (name : String) : String → Prop where
  | bare (same : other = document) : Spells document other indentUnit units name name
  | qualified {stem : String} (foreign : other ≠ document)
      (file : other.fileName = stem ++ ".py") (imported : "import " ++ stem ∈ units)
      (shown : document.Shows indentUnit (Block.textLines 0 ("import " ++ stem))) :
      Spells document other indentUnit units name (stem ++ "." ++ name)

/-- The target that a document of a run is written for. -/
abbrev Document.target (document : Document) (schema : Schema) (options : Options) : Target :=
  Module.target schema.bindings options document.space

/-- An open line stands in a document of a run, and each of its references is spelt as the name of
what it refers to in one of the documents. -/
def OpenLine.Resolves (line : OpenLine) (schema : Schema) (options : Options)
    (documents : List Document) (document : Document) (units : List String) : Prop :=
  ∀ before ref after, line.parts = before ++ .reference ref :: after →
    ∃ b spelt, schema.bindings.find? ref = some b ∧
      (∃ other ∈ documents, other.Defines schema options ref b ∧
        document.Spells other options.indentUnit units b.name spelt) ∧
      document.Shows options.indentUnit
        [.atLevel line.level (spellAll (document.target schema options) before ++ spelt ++
          spellAll (document.target schema options) after)]

/-- The member of a declaration shows all that the declaration refers to, all of it resolves, and
only modules of documents are imported for it. -/
structure Declaration.Resolves (d : Declaration) (schema : Schema) (options : Options)
    (documents : List Document) (document : Document) (member : Member) : Prop where
  key_eq : member.key = d.qualifiedName
  superclass_mem : ∀ ref ∈ d.superclass, ref ∈ d.emittedReferences
  refs_eq : (d.openLines member.name).flatMap (refs ·.parts) = d.emittedReferences
  lines : ∀ line ∈ d.openLines member.name,
    line.Resolves schema options documents document member.units
  imports : ∀ unit ∈ member.units, unit = "from enum import Enum" ∨
    ∃ other ∈ documents, ∃ stem, other.fileName = stem ++ ".py" ∧ unit = "import " ++ stem

namespace Written

variable {bindings : BindingTable} {options : Options} {m : Module} {document : Document}
  {members : List Member}

/-- Every declaration of a module has a member in its document. -/
theorem exists_member (h : Written bindings options m document members) {d : Declaration}
    (hd : d ∈ m.declarations) : ∃ member ∈ members, ∃ position,
      Member.ofDeclaration d position (Module.target bindings options document.space) =
        .ok member := by
  obtain ⟨made, hmade, hordered⟩ := (Module.orderedMembers_eq_ok_iff.1 h.members_eq).exists_made
  obtain ⟨position, hposition⟩ : ∃ position, (d, position) ∈ m.declarations.zipIdx := by
    obtain ⟨i, hi, rfl⟩ := List.mem_iff_getElem.1 hd
    exact ⟨i, by simp [List.mk_mem_zipIdx_iff_getElem?, hi]⟩
  obtain ⟨member, hmem, hmember⟩ := exists_mem_zip_of_mem_left (mapM_eq_ok_iff.1 hmade) hposition
  refine ⟨member, ?_, position, hmember⟩
  exact (Member.perm_of_ordered hordered).1.mem_iff.2 (List.of_mem_zip hmem).2

/-- What the lines of a document hold in one piece is shown. -/
theorem shows (h : Written bindings options m document members) {lines : List BlockLine}
    (hlines : ∀ header typeName,
      lines <:+: (Document.block header typeName members).lines.toList) :
    document.Shows options.indentUnit lines := by
  rw [(Document.ofMembers_eq_ok_iff.1 h.document_eq).2]
  exact ⟨_, hlines _ _, rfl⟩

/-- The document of a module defines all that the module declares. -/
theorem defines {schema : Schema} (h : Written schema.bindings options m document members)
    (hm : m ∈ schema.modules) {d : Declaration} (hd : d ∈ m.declarations) {b : Binding}
    (hfind : schema.bindings.find? d.qualifiedName = some b) :
    document.Defines schema options d.qualifiedName b := by
  -- Both the check of the module and the name of the member look up the same binding.
  obtain ⟨b', hfind', hspace⟩ := (Module.orderedMembers_eq_ok_iff.1 h.members_eq).bound d hd
  obtain ⟨member, hmember, position, hof⟩ := h.exists_member hd
  have hstems := Member.stems_of_ofDeclaration hof
  obtain ⟨b'', hfind'', hname⟩ := hstems.bound
  obtain rfl : b = b' := by simpa [Module.target, hfind] using hfind'
  obtain rfl : b = b'' := by simpa [Module.target, hfind] using hfind''
  exact ⟨hspace.symm, m, hm, members, h, member, hmember, hstems.key_eq, hname⟩

end Written

theorem mem_emittedReferences_of_superclass {d : Declaration} (h : Reflection.Inherits d) :
    ∀ ref ∈ d.superclass, ref ∈ d.emittedReferences := by
  intro ref href
  have hinherits : d.kind.mayInherit = true := h (by simp [Option.mem_def.1 href])
  have hmem : ref ∈ d.superclass.toList := by simpa using href
  cases hkind : d.kind with
  | moduleClass =>
      rw [Declaration.emittedReferences, hkind]
      exact List.mem_append_left _ hmem
  | ordinaryClass =>
      rw [Declaration.emittedReferences, hkind]
      exact List.mem_append_left _ hmem
  | enumeration => simp [hkind, Declaration.Kind.mayInherit] at hinherits
  | typeAlias => simp [hkind, Declaration.Kind.mayInherit] at hinherits

section Run

variable {source : String} {json : Json} {schema : Schema} {options : Options}
  {ds ds' : Diagnostics} {documents : List Document}

/-- What is bound is defined by one of the documents. -/
theorem exists_defines_of_find? (hread : Schema.ofJson source json = .ok schema)
    (hwithout : Reflection.WithoutBindings json)
    (hgenerate : (schema.generate options).run.run ds = (.ok documents, ds'))
    {ref : String} {b : Binding} (hfind : schema.bindings.find? ref = some b) :
    ∃ other ∈ documents, other.Defines schema options ref b := by
  -- The binding was derived from a declaration, whose module has a document of its own.
  obtain ⟨m, hm, d, hd, rfl⟩ := Schema.exists_declaration_of_find? hread hwithout hfind
  obtain ⟨other, hmem, members, hwritten⟩ :=
    exists_mem_zip_of_mem_left (Schema.forall₂_written_of_generate hgenerate) hm
  exact ⟨other, (List.of_mem_zip hmem).2, hwritten.defines hm hd hfind⟩

/-- A reference that a member provides for is spelt as the name of what it refers to. -/
theorem spells_of_provides (hgenerate : (schema.generate options).run.run ds = (.ok documents, ds'))
    {m : Module} {document other : Document} {members : List Member}
    (hwritten : Written schema.bindings options m document members)
    (hdocument : document ∈ documents) (hother : other ∈ documents) {ref : String} {b : Binding}
    (hdefines : other.Defines schema options ref b) {member : Member} (hmember : member ∈ members)
    (himported : (document.target schema options).isForeign b = true →
      (document.target schema options).importLine b.space ∈ member.units) :
    document.Spells other options.indentUnit member.units b.name
      ((document.target schema options).spelling b) := by
  obtain ⟨hspace, m', hm', members', hwritten', -⟩ := hdefines
  rw [Target.spelling]
  by_cases hsame : b.space = document.space
  · -- Namespaces tell the documents of a run apart.
    have heq : other = document :=
      List.inj_on_of_nodup_map (Schema.spaces_nodup_of_generate hgenerate) hother hdocument
        (hspace.trans hsame)
    rw [if_neg (by simp [Target.isForeign, Module.target, hsame])]
    exact .bare heq
  · have hforeign : (document.target schema options).isForeign b = true := by
      simp [Target.isForeign, Module.target, hsame]
    rw [if_pos hforeign]
    -- Imports and files are named after the namespace in one and the same way.
    have hunit := himported hforeign
    refine .qualified ?_ ?_ hunit (hwritten.shows fun header typeName => ?_)
    · rintro rfl
      exact hsame hspace.symm
    · rw [hwritten'.fileName_eq, hspace]
      rfl
    · exact Document.unit_infix_block header typeName hmember hunit

/-- What a namespace may need is there: the modules that are imported are those of documents. -/
theorem exists_fileName_of_needed (hread : Schema.ofJson source json = .ok schema)
    (hwithout : Reflection.WithoutBindings json)
    (hgenerate : (schema.generate options).run.run ds = (.ok documents, ds'))
    {document : Document} {unit : String}
    (hneeded : (document.target schema options).Needed unit) :
    unit = "from enum import Enum" ∨
      ∃ other ∈ documents, ∃ stem, other.fileName = stem ++ ".py" ∧ unit = "import " ++ stem := by
  rcases hneeded with hfixed | ⟨ref, b, hfind, rfl⟩
  · exact Or.inl hfixed
  · obtain ⟨other, hother, hspace, m, hm, members, hwritten, -⟩ :=
      exists_defines_of_find? hread hwithout hgenerate hfind
    refine Or.inr ⟨other, hother, ModuleName.importName b.space options.fileSuffix, ?_, rfl⟩
    rw [hwritten.fileName_eq, hspace]

/-- The lines that a member shows for its declaration resolve. -/
theorem resolves_of_closes (hread : Schema.ofJson source json = .ok schema)
    (hwithout : Reflection.WithoutBindings json)
    (hgenerate : (schema.generate options).run.run ds = (.ok documents, ds'))
    {m : Module} {document : Document} {members : List Member}
    (hwritten : Written schema.bindings options m document members)
    (hdocument : document ∈ documents) {member : Member} (hmember : member ∈ members)
    {line : OpenLine}
    (hcloses : member.Closes (document.target schema options) line) :
    line.Resolves schema options documents document member.units := by
  intro before ref after hparts
  have href : ref ∈ refs line.parts := by
    rw [mem_refs, hparts]
    simp
  obtain ⟨b, hfind, himported⟩ := hcloses.provided ref href
  obtain ⟨other, hother, hdefines⟩ :=
    exists_defines_of_find? hread hwithout hgenerate hfind
  refine ⟨b, _, hfind, ⟨other, hother, hdefines, spells_of_provides hgenerate hwritten hdocument
    hother hdefines hmember himported⟩, hwritten.shows fun header typeName => ?_⟩
  have hclose : line.close (document.target schema options) =
      .atLevel line.level (spellAll (document.target schema options) before ++
        (document.target schema options).spelling b ++
          spellAll (document.target schema options) after) := by
    rw [OpenLine.close, hparts, spellAll_append, spellAll_cons, spelling, hfind,
      String.append_assoc]
    rfl
  -- The closed line is one of the body, and the body is one piece of the document.
  rw [← hclose]
  obtain ⟨above, below, hbody⟩ := List.append_of_mem hcloses.shown
  refine List.IsInfix.trans ⟨above, below, ?_⟩ (Document.body_infix_block header typeName hmember)
  rw [hbody, List.append_assoc]
  rfl

/-- No document of a run refers to what the run does not define. -/
theorem references_resolve (hread : Schema.ofJson source json = .ok schema)
    (hwithout : Reflection.WithoutBindings json)
    (hgenerate : (schema.generate options).run.run ds = (.ok documents, ds')) :
    List.Forall₂ (fun m document => ∃ members,
        Written schema.bindings options m document members ∧
          ∀ d ∈ m.declarations, ∃ member ∈ members,
            d.Resolves schema options documents document member)
      schema.modules documents := by
  have hall := Schema.forall₂_written_of_generate hgenerate
  rw [List.forall₂_iff_zip] at hall ⊢
  refine ⟨hall.1, fun {m document} hmem => ?_⟩
  obtain ⟨members, hwritten⟩ := hall.2 hmem
  obtain ⟨hm, hdocument⟩ := List.of_mem_zip hmem
  refine ⟨members, hwritten, fun d hd => ?_⟩
  obtain ⟨member, hmember, position, hof⟩ := hwritten.exists_member hd
  refine ⟨member, hmember, (Member.stems_of_ofDeclaration hof).key_eq, ?_,
    d.refs_openLines member.name, fun line hline => ?_, fun unit hunit => ?_⟩
  · exact mem_emittedReferences_of_superclass (Schema.inherits_of_ofJson hread m hm d hd)
  · exact resolves_of_closes hread hwithout hgenerate hwritten hdocument hmember
      (Member.closes_of_ofDeclaration hof line hline)
  · exact exists_fileName_of_needed hread hwithout hgenerate
      (Member.needed_of_ofDeclaration hof unit hunit)

end Run

/-! ## A module that refers to another -/

/-- A module with a class. -/
def baseModule : Module where
  name := "base"
  declarations := [
    { kind := .moduleClass, name := "Base", moduleName := "base", location := ⟨"s", 1, 1⟩ },
    { kind := .ordinaryClass, name := "Shape", moduleName := "base", location := ⟨"s", 1, 1⟩ }]

/-- A module whose class extends that of `baseModule` and has a field of the class in it. -/
def appModule : Module where
  name := "app"
  declarations := [
    { kind := .moduleClass, name := "App", moduleName := "app", location := ⟨"s", 1, 1⟩,
      superclass := some "base"
      properties := [
        { name := "shape", type := .nullable ⟨"s", 1, 1⟩ (.declared ⟨"s", 1, 1⟩ "base#Shape"),
          location := ⟨"s", 1, 1⟩ }] }]

/-- The two modules with the bindings that they have by default. -/
def linkedSchema : Schema where
  modules := [baseModule, appModule]
  bindings := ⟨[
    { kind := .moduleClass, source := "base", location := ⟨"s", 1, 1⟩, space := "base",
      name := "ModuleClass" },
    { kind := .ordinaryClass, source := "base#Shape", location := ⟨"s", 1, 1⟩, space := "base",
      name := "Shape" },
    { kind := .moduleClass, source := "app", location := ⟨"s", 1, 1⟩, space := "app",
      name := "ModuleClass" }]⟩

/-- The document of `linkedSchema`. -/
def linkedDocument : Json :=
  .object [("modules", .array [
    .object [("name", .string "base"), ("declarations", .array [
      .object [("kind", .string "module"), ("name", .string "Base")],
      .object [("kind", .string "class"), ("name", .string "Shape")]])],
    .object [("name", .string "app"), ("declarations", .array [
      .object [("kind", .string "module"), ("name", .string "App"), ("superclass", .string "base"),
        ("properties", .array [.object [("name", .string "shape"), ("type", .object [
          ("kind", .string "nullable"), ("inner", .object [
            ("kind", .string "declared"), ("ref", .string "base#Shape")])])]])]])]])]

theorem generate_linkedSchema : ∃ documents ds,
    (linkedSchema.generate {}).run.run [] = (.ok documents, ds) := by
  obtain ⟨baseMembers, hbase, hbaseEnds⟩ : ∃ members,
      baseModule.Arranged (Module.target linkedSchema.bindings {} "base") members ∧
        Document.endsWithModuleClass members = true := by
    refine ⟨_, ⟨?_, rfl, (Collision.all_eq_nil_iff _).2 (by decide), _, rfl,
      (Member.ordered_of_sorted (by decide)).trans rfl⟩, rfl⟩
    simp only [baseModule, List.forall_mem_cons]
    exact ⟨⟨_, rfl, rfl⟩, ⟨_, rfl, rfl⟩, by simp⟩
  obtain ⟨appMembers, happ, happEnds⟩ : ∃ members,
      appModule.Arranged (Module.target linkedSchema.bindings {} "app") members ∧
        Document.endsWithModuleClass members = true := by
    refine ⟨_, ⟨?_, rfl, (Collision.all_eq_nil_iff _).2 (by decide), _, rfl,
      (Member.ordered_of_sorted (by decide)).trans rfl⟩, rfl⟩
    simp only [appModule, List.forall_mem_cons]
    exact ⟨⟨_, rfl, rfl⟩, by simp⟩
  obtain ⟨base, hbaseSpace, hbase⟩ := Written.exists_of_arranged rfl hbase hbaseEnds
  obtain ⟨app, happSpace, happ⟩ := Written.exists_of_arranged rfl happ happEnds
  obtain ⟨ds, hrun⟩ : ∃ ds, (Schema.documentsFrom linkedSchema.bindings {} []
      linkedSchema.modules).run.run [] = (.ok [base, app], ds) :=
    ⟨_, Schema.run_documentsFrom_cons_eq_ok_iff.2
      ⟨⟨"base", _, "base"⟩, base, [app], baseMembers, rfl, rfl, hbaseSpace, hbase,
        Schema.run_documentsFrom_cons_eq_ok_iff.2
          ⟨⟨"app", _, "app"⟩, app, [], appMembers, rfl, rfl, happSpace, happ, rfl⟩⟩⟩
  exact ⟨[base, app], ds, Schema.run_generate_eq_ok_iff.2 ⟨by decide, hrun⟩⟩

/-- One of the modules refers to the other, and its document does. -/
theorem references_resolve_linkedSchema :
    Schema.ofJson "s" linkedDocument = .ok linkedSchema ∧
      Reflection.WithoutBindings linkedDocument ∧
      ∃ documents ds, (linkedSchema.generate {}).run.run [] = (.ok documents, ds) ∧
        List.Forall₂ (fun m document => ∃ members,
            Written linkedSchema.bindings {} m document members ∧
              ∀ d ∈ m.declarations, ∃ member ∈ members,
                d.Resolves linkedSchema {} documents document member)
          linkedSchema.modules documents := by
  have hread : Schema.ofJson "s" linkedDocument = .ok linkedSchema := rfl
  have hwithout : Reflection.WithoutBindings linkedDocument := by
    intro members hmembers
    cases hmembers
    rfl
  obtain ⟨documents, ds, hgenerate⟩ := generate_linkedSchema
  exact ⟨hread, hwithout, documents, ds, hgenerate,
    references_resolve hread hwithout hgenerate⟩

end PklBindings
