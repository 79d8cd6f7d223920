import PklBindings.Proofs.DeclarationAcceptance

/-!
# What is read from a schema document

Only classes come with a superclass (`inherits_of_ofJson`). A document that gives no bindings has
one for each declaration, module after module and each in its place
(`Reflection.exists_added_of_modules`): the table then holds the qualified names of all declarations
(`sources_of_ofJson`).
-/

namespace PklBindings

/-- The qualified names of the declarations of a module, in order. -/
def Module.qualifiedNames (m : Module) : List String :=
  m.declarations.map (·.qualifiedName)

/-- A binding of a declaration in a namespace, whatever name it gives. -/
structure Binding.StandsFor (b : Binding) (d : Declaration) (space : String) : Prop where
  kind_eq : b.kind = d.kind
  source_eq : b.source = d.qualifiedName
  location_eq : b.location = d.location
  space_eq : b.space = space

/-- The text under a name of an object. -/
def Json.textUnder? (json : Json) (name : String) : Option String :=
  (json.members?.bind fun members => members.get? name).bind string?

namespace Reflection

/-- The sources of bindings, in order. -/
def sources (bindings : List Binding) : List String :=
  bindings.map (·.source)

variable {s s' : List Binding}

/-- The first item is read, and the others in the session that it left. -/
theorem run_readItems_cons_eq_ok_iff {α : Type} {read : Json.Path → Json → Session α}
    {place : Json × Nat} {places : List (Json × Nat)} {path : Json.Path} {as : List α} :
    ((place :: places).mapM fun (json, index) => read (path.item index) json).run.run s =
        (.ok as, s') ↔
      ∃ a others t, as = a :: others ∧ (read (path.item place.2) place.1).run.run s = (.ok a, t) ∧
        (places.mapM fun (json, index) => read (path.item index) json).run.run t =
          (.ok others, s') := by
  rw [List.mapM_cons, run_bind_eq_ok_iff]
  constructor
  · rintro ⟨a, t, hfirst, h⟩
    obtain ⟨others, t', hothers, hpure⟩ := run_bind_eq_ok_iff.1 h
    cases hpure
    exact ⟨a, others, t, rfl, hfirst, hothers⟩
  · rintro ⟨a, others, t, rfl, hfirst, hothers⟩
    exact ⟨a, t, hfirst, run_bind_eq_ok_iff.2 ⟨others, s', hothers, rfl⟩⟩

/-- What holds of each item and what is read of it holds of the items of an array, one by one. -/
theorem forall₂_of_readItems {α : Type} {read : Json.Path → Json → Session α} {R : Json → α → Prop}
    (hread : ∀ {path json a s s'}, (read path json).run.run s = (.ok a, s') → R json a)
    {path : Json.Path} {items : List Json} {as : List α}
    (h : (Json.readItems path items read).run.run s = (.ok as, s')) : List.Forall₂ R items as := by
  -- The induction is on the items with their indices, of which reading starts at any.
  rw [Json.readItems] at h
  generalize 0 = start at h
  induction items generalizing start s as with
  | nil =>
      cases h
      exact .nil
  | cons item items ih =>
      obtain ⟨a, others, t, rfl, hfirst, hothers⟩ := run_readItems_cons_eq_ok_iff.1 h
      exact .cons (hread hfirst) (ih _ hothers)

/-- What holds of each item that is read holds of all items of an array. -/
theorem forall_of_readItems {α : Type} {read : Json.Path → Json → Session α} {P : α → Prop}
    (hread : ∀ {path json a s s'}, (read path json).run.run s = (.ok a, s') → P a)
    {path : Json.Path} {items : List Json} {as : List α}
    (h : (Json.readItems path items read).run.run s = (.ok as, s')) : ∀ a ∈ as, P a := by
  intro a ha
  obtain ⟨item, -, hP⟩ := exists_mem_zip_of_mem_right
    (forall₂_of_readItems (R := fun _ a => P a) hread h) ha
  exact hP

/-- When every item adds bindings of its own to the session, the items of an array add theirs one
after another. -/
theorem added_of_readItems {α β : Type} {read : Json.Path → Json → Session α}
    {f : Json → α → List β} {R : β → Binding → Prop}
    (hread : ∀ {path json a s s'}, (read path json).run.run s = (.ok a, s') →
      ∃ added, s' = s ++ added ∧ List.Forall₂ R (f json a) added)
    {path : Json.Path} {items : List Json} {as : List α}
    (h : (Json.readItems path items read).run.run s = (.ok as, s')) :
    ∃ added, s' = s ++ added ∧
      List.Forall₂ R ((items.zip as).flatMap fun e => f e.1 e.2) added := by
  rw [Json.readItems] at h
  generalize 0 = start at h
  induction items generalizing start s as with
  | nil =>
      cases h
      exact ⟨[], by simp, .nil⟩
  | cons item items ih =>
      obtain ⟨a, others, t, rfl, hfirst, hothers⟩ := run_readItems_cons_eq_ok_iff.1 h
      obtain ⟨first, rfl, hadded⟩ := hread hfirst
      obtain ⟨rest, rfl, hrest⟩ := ih _ hothers
      refine ⟨first ++ rest, List.append_assoc _ _ _, ?_⟩
      rw [List.zip_cons_cons, List.flatMap_cons]
      exact List.rel_append hadded hrest

/-! ## Declarations and modules -/

/-- Of the kinds of declaration, only classes may name a superclass. -/
def Inherits (d : Declaration) : Prop :=
  d.superclass.isSome = true → d.kind.mayInherit = true

theorem inherits_of_declaration {moduleName file : String} {path : Json.Path} {json : Json}
    {d : Declaration} (h : declaration moduleName file path json = .ok d) : Inherits d := by
  obtain ⟨members, -, h⟩ := bind_eq_ok_iff.1 h
  obtain ⟨kind, -, h⟩ := bind_eq_ok_iff.1 h
  obtain ⟨name, -, h⟩ := bind_eq_ok_iff.1 h
  obtain ⟨loc, -, h⟩ := bind_eq_ok_iff.1 h
  obtain ⟨doc, -, h⟩ := bind_eq_ok_iff.1 h
  obtain ⟨parent, hparent, h⟩ := bind_eq_ok_iff.1 h
  obtain ⟨items, -, h⟩ := bind_eq_ok_iff.1 h
  obtain ⟨properties, -, h⟩ := bind_eq_ok_iff.1 h
  obtain ⟨items, -, h⟩ := bind_eq_ok_iff.1 h
  obtain ⟨values, -, h⟩ := bind_eq_ok_iff.1 h
  obtain ⟨aliased, -, h⟩ := bind_eq_ok_iff.1 h
  cases h
  obtain ⟨named, -, hparent⟩ := bind_eq_ok_iff.1 hparent
  split at hparent
  · cases hparent
  · rename_i hstray
    cases hparent
    simpa [Inherits] using hstray

/-- A declaration that is read adds its default binding to the session. -/
theorem run_declarationIn_eq_ok {moduleName file space : String} {path : Json.Path} {json : Json}
    {d : Declaration}
    (h : (declarationIn moduleName file space path json).run.run s = (.ok d, s')) :
    declaration moduleName file path json = .ok d ∧
      ∃ b : Binding, s' = s ++ [b] ∧ b.StandsFor d space := by
  obtain ⟨d', t, hd, h⟩ := run_bind_eq_ok_iff.1 h
  obtain ⟨requested, t', hrequested, h⟩ := run_bind_eq_ok_iff.1 h
  obtain ⟨hread, rfl⟩ := run_liftExcept_eq_ok_iff.1 hd
  obtain ⟨-, rfl⟩ := run_liftExcept_eq_ok_iff.1 hrequested
  cases h
  exact ⟨hread, _, rfl, rfl, rfl, rfl, rfl⟩

/-- The namespace that a document gives a module: the name of the module, if it says nothing. -/
def spaceOf (json : Json) (m : Module) : String :=
  (json.textUnder? "namespace").getD m.name

/-- The namespace and the name of a module are those that the document gives, its declarations are
read one after another, and their default bindings are added to the session. -/
theorem run_moduleIn_eq_ok {source : String} {path : Json.Path} {json : Json} {m : Module}
    (h : (moduleIn source path json).run.run s = (.ok m, s')) :
    json.textUnder? "name" = some m.name ∧
      (∀ d ∈ m.declarations, ∃ path json,
        declaration m.name (if m.uri = "" then source else m.uri) path json = .ok d) ∧
      ∃ added, s' = s ++ added ∧
        List.Forall₂ (fun d b => b.StandsFor d (spaceOf json m)) m.declarations added := by
  obtain ⟨members, t, hmembers, h⟩ := run_bind_eq_ok_iff.1 h
  obtain ⟨⟨name, uri, space⟩, t', hlifted, h⟩ := run_bind_eq_ok_iff.1 h
  obtain ⟨items, t'', hitems, h⟩ := run_bind_eq_ok_iff.1 h
  obtain ⟨hobject, rfl⟩ := run_liftExcept_eq_ok_iff.1 hmembers
  obtain ⟨hhead, rfl⟩ := run_liftExcept_eq_ok_iff.1 hlifted
  obtain ⟨-, rfl⟩ := run_liftExcept_eq_ok_iff.1 hitems
  obtain ⟨declarations, t, hdeclarations, h⟩ := run_bind_eq_ok_iff.1 h
  cases h
  obtain rfl := Json.requireMembers_eq_ok_iff.1 hobject
  obtain ⟨name', hname, hhead⟩ := bind_eq_ok_iff.1 hhead
  obtain ⟨uri', -, hhead⟩ := bind_eq_ok_iff.1 hhead
  obtain ⟨space', hspace, hhead⟩ := bind_eq_ok_iff.1 hhead
  cases hhead
  rw [Json.Members.requireString_eq_ok_iff] at hname
  have hname' : (Json.object members).textUnder? "name" = some name := by
    simp [Json.textUnder?, Json.members?, hname, Json.string?]
  have hspace' : (Json.object members).textUnder? "namespace" = space' :=
    Json.Members.string?_of_optionalString hspace
  refine ⟨hname', ?_, ?_⟩
  · exact forall_of_readItems (fun h => ⟨_, _, (run_declarationIn_eq_ok h).1⟩) hdeclarations
  · have hlength := (forall₂_of_readItems (R := fun _ _ => True) (fun _ => trivial)
      hdeclarations).length_eq
    obtain ⟨added, rfl, hadded⟩ := added_of_readItems
      (f := fun _ d => [d]) (R := fun d b => b.StandsFor d (space'.getD name))
      (fun h => by
        obtain ⟨-, b, rfl, hb⟩ := run_declarationIn_eq_ok h
        exact ⟨[b], rfl, .cons hb .nil⟩) hdeclarations
    refine ⟨added, rfl, ?_⟩
    rw [spaceOf, hspace']
    rwa [← List.map_eq_flatMap, List.map_snd_zip (Nat.le_of_eq hlength.symm)] at hadded

/-- The declarations of modules that are read from items, module after module, and the namespace of
each. -/
def declarationsOf (items : List Json) (modules : List Module) : List (Declaration × String) :=
  (items.zip modules).flatMap fun e => e.2.declarations.map fun d => (d, spaceOf e.1 e.2)

/-- Modules that are read add the default bindings of their declarations to the session. -/
theorem exists_added_of_modules {source : String} {path : Json.Path} {items : List Json}
    {modules : List Module}
    (h : (Json.readItems path items (moduleIn source)).run.run s = (.ok modules, s')) :
    ∃ added, s' = s ++ added ∧ List.Forall₂ (fun e b => b.StandsFor e.1 e.2)
      (declarationsOf items modules) added :=
  added_of_readItems (f := fun json m => m.declarations.map fun d => (d, spaceOf json m))
    (R := fun e b => b.StandsFor e.1 e.2) (fun h => by
      obtain ⟨-, -, added, rfl, hadded⟩ := run_moduleIn_eq_ok h
      exact ⟨added, rfl, List.forall₂_map_left_iff.2 hadded⟩) h

/-- Their sources are the qualified names of the declarations. -/
theorem sources_of_modules {source : String} {path : Json.Path} {items : List Json}
    {modules : List Module}
    (h : (Json.readItems path items (moduleIn source)).run.run s = (.ok modules, s')) :
    sources s' = sources s ++ modules.flatMap Module.qualifiedNames := by
  have hlength := (forall₂_of_readItems (R := fun _ _ => True) (fun _ => trivial) h).length_eq
  obtain ⟨added, rfl, hadded⟩ := exists_added_of_modules h
  have hsources : sources added = (declarationsOf items modules).map (·.1.qualifiedName) := by
    rw [sources, ← List.forall₂_eq_eq_eq, List.forall₂_map_left_iff, List.forall₂_map_right_iff]
    exact hadded.flip.imp fun _ _ hb => hb.source_eq
  rw [sources, List.map_append]
  congr 1
  calc sources added
      = (items.zip modules).flatMap fun e => e.2.qualifiedNames := by
        rw [hsources, declarationsOf, List.map_flatMap]
        simp only [List.map_map]
        rfl
    _ = ((items.zip modules).map Prod.snd).flatMap Module.qualifiedNames := by
        rw [List.flatMap_map]
    _ = modules.flatMap Module.qualifiedNames := by
        rw [List.map_snd_zip (Nat.le_of_eq hlength.symm)]

/-! ## Bindings that a document gives -/

/-- A binding is read only if none before it has its source. -/
theorem nodup_sources_of_bindingsFrom {source : String} {earlier bindings : List Binding}
    {items : List Json} (h : bindingsFrom source earlier items = .ok bindings)
    (hearlier : (sources earlier).Nodup) : (sources (earlier ++ bindings)).Nodup := by
  induction items generalizing earlier bindings with
  | nil =>
      cases h
      rwa [List.append_nil]
  | cons json items ih =>
      obtain ⟨b, -, h⟩ := bind_eq_ok_iff.1 h
      split at h
      · cases h
      · rename_i hfree
        obtain ⟨others, hothers, h⟩ := bind_eq_ok_iff.1 h
        cases h
        have hnew : b.source ∉ sources earlier := by
          rw [List.findIdx?_eq_none_iff] at hfree
          intro hmem
          obtain ⟨first, hfirst, hsource⟩ := List.mem_map.1 hmem
          simpa [hsource] using hfree first hfirst
        have hnext : (sources (earlier ++ [b])).Nodup := by
          rw [sources, List.map_append, List.map_singleton, List.nodup_append]
          refine ⟨hearlier, by simp, ?_⟩
          rintro other hother new hmem rfl
          exact hnew (List.mem_singleton.1 hmem ▸ hother)
        rw [List.append_cons]
        exact ih hothers hnext

/-! ## Schemas -/

/-- The document gives no bindings of its own. -/
def WithoutBindings (json : Json) : Prop :=
  ∀ members, json.members? = some members → members.get? "mappings" = none

theorem withoutBindings_iff {json : Json} {members : Json.Members} {path : Json.Path}
    (h : json.requireMembers path = .ok members) :
    WithoutBindings json ↔ members.get? "mappings" = none := by
  rw [Json.requireMembers] at h
  split at h
  · rename_i hobject
    cases h
    simp [WithoutBindings, hobject]
  · cases h

/-- How a schema is read: its modules one after another in a session of their own, and its table is
what the session then holds, unless the document gives bindings. In the end the session holds
nothing. -/
theorem exists_modules_of_schema {source : String} {json : Json} {schema : Schema}
    (h : (Reflection.schema source json).run.run s = (.ok schema, s')) :
    ∃ members items t, json = .object members ∧ moduleItems members = .ok items ∧
      (Json.readItems (.member .root "modules") items (moduleIn source)).run.run [] =
        (.ok schema.modules, t) ∧
      (WithoutBindings json → t = schema.bindings.entries) ∧
      (¬ WithoutBindings json →
        ∃ given, bindingsFrom source [] given = .ok schema.bindings.entries) ∧ s' = [] := by
  -- The session starts over, so all that it holds in the end comes from the modules.
  obtain ⟨_, t, hstart, h⟩ := run_bind_eq_ok_iff.1 h
  cases hstart
  obtain ⟨members, t, hmembers, h⟩ := run_bind_eq_ok_iff.1 h
  obtain ⟨items, t', hitems, h⟩ := run_bind_eq_ok_iff.1 h
  obtain ⟨hobject, rfl⟩ := run_liftExcept_eq_ok_iff.1 hmembers
  obtain ⟨hread, rfl⟩ := run_liftExcept_eq_ok_iff.1 hitems
  obtain ⟨modules, t, hmodules, h⟩ := run_bind_eq_ok_iff.1 h
  have hwithout : WithoutBindings json ↔ members.get? "mappings" = none :=
    withoutBindings_iff hobject
  have hjson := Json.requireMembers_eq_ok_iff.1 hobject
  cases hmappings : members.get? "mappings" with
  | none =>
      rw [hmappings] at h
      cases h
      exact ⟨members, items, _, hjson, hread, hmodules, fun _ => rfl,
        fun hgiven => absurd (hwithout.2 hmappings) hgiven, rfl⟩
  | some given =>
      rw [hmappings] at h
      obtain ⟨given', t', -, h⟩ := run_bind_eq_ok_iff.1 h
      obtain ⟨bindings, t'', hbindings, h⟩ := run_bind_eq_ok_iff.1 h
      cases h
      refine ⟨members, items, t, hjson, hread, hmodules, fun hnone => ?_, fun _ => ?_, rfl⟩
      · rw [hwithout.1 hnone] at hmappings
        cases hmappings
      · exact ⟨given', (run_liftExcept_eq_ok_iff.1 hbindings).1⟩

/-- A schema that is read, and its table: if the document gives no bindings, it has one for each
declaration, and otherwise no two of one source. -/
theorem run_schema_eq_ok {source : String} {json : Json} {schema : Schema}
    (h : (Reflection.schema source json).run.run s = (.ok schema, s')) :
    (∀ m ∈ schema.modules, ∀ d ∈ m.declarations, Inherits d) ∧
      (WithoutBindings json →
        sources schema.bindings.entries = schema.modules.flatMap Module.qualifiedNames) ∧
      (¬ WithoutBindings json → (sources schema.bindings.entries).Nodup) := by
  obtain ⟨members, items, t, -, -, hmodules, hderived, hgiven, -⟩ := exists_modules_of_schema h
  refine ⟨?_, fun hwithout => ?_, fun hnot => ?_⟩
  · refine forall_of_readItems (fun h d hd => ?_) hmodules
    obtain ⟨path, json, hd⟩ := (run_moduleIn_eq_ok h).2.1 d hd
    exact inherits_of_declaration hd
  · rw [← hderived hwithout, sources_of_modules hmodules]
    rfl
  · obtain ⟨given, hbindings⟩ := hgiven hnot
    exact nodup_sources_of_bindingsFrom hbindings List.nodup_nil

end Reflection

namespace Schema

variable {source : String} {json : Json} {schema : Schema}

theorem run_schema_of_ofJson (h : Schema.ofJson source json = .ok schema) :
    ∃ s, (Reflection.schema source json).run.run [] = (.ok schema, s) := by
  rw [ofJson, mapError_eq_ok_iff] at h
  exact ⟨_, Prod.ext h rfl⟩

theorem inherits_of_ofJson (h : Schema.ofJson source json = .ok schema) :
    ∀ m ∈ schema.modules, ∀ d ∈ m.declarations, Reflection.Inherits d := by
  obtain ⟨s, hrun⟩ := run_schema_of_ofJson h
  exact (Reflection.run_schema_eq_ok hrun).1

theorem sources_of_ofJson (h : Schema.ofJson source json = .ok schema)
    (hwithout : Reflection.WithoutBindings json) :
    Reflection.sources schema.bindings.entries =
      schema.modules.flatMap Module.qualifiedNames := by
  obtain ⟨s, hrun⟩ := run_schema_of_ofJson h
  exact (Reflection.run_schema_eq_ok hrun).2.1 hwithout

/-- Whatever is bound has been declared. -/
theorem exists_declaration_of_find? (h : Schema.ofJson source json = .ok schema)
    (hwithout : Reflection.WithoutBindings json)
    {ref : String} {b : Binding} (hfind : schema.bindings.find? ref = some b) :
    ∃ m ∈ schema.modules, ∃ d ∈ m.declarations, d.qualifiedName = ref := by
  have hmem : ref ∈ Reflection.sources schema.bindings.entries := by
    rw [← BindingTable.source_of_find? hfind]
    exact List.mem_map_of_mem (List.mem_of_find?_eq_some hfind)
  rw [sources_of_ofJson h hwithout, List.mem_flatMap] at hmem
  obtain ⟨m, hm, href⟩ := hmem
  exact ⟨m, hm, List.mem_map.1 href⟩

end Schema

end PklBindings
