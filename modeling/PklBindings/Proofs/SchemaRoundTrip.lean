import PklBindings.Proofs.SchemaEncoding

/-!
# Reading back what was written

Reading the document of a schema gives the schema again (`ofJson_toJson`). The parts of a document
are read back one by one: members of objects, locations, types, declarations, modules and bindings.
Of types this holds at every number of levels that is greater than their depth.
-/

namespace PklBindings

open Json (Path Members)

/-! ## Members of objects -/

namespace Json

variable {members : Members} {path : Path} {name : String}

theorem requireString_eq_ok {s : String} (h : members.get? name = some (.string s)) :
    members.requireString path name = .ok s := by
  rw [Members.requireString, h]
  rfl

theorem optionalString_eq_ok {s : Option String} (h : members.get? name = s.map .string) :
    members.optionalString path name = .ok s := by
  rw [Members.optionalString, h]
  cases s <;> rfl

theorem optionalItems_eq_ok {items : List Json} (h : members.get? name = some (.array items)) :
    members.optionalItems path name = .ok items := by
  rw [Members.optionalItems, h]
  rfl

theorem optionalFlag_eq_ok {flag : Bool} (h : members.get? name = some (.bool flag)) :
    members.optionalFlag path name = .ok flag := by
  rw [Members.optionalFlag, h]
  rfl

theorem optionalPosition_of_integer {n : Int} {json : Json} (hget : members.get? name = some json)
    (hinteger : json.integer? = some n) (hbounds : 1 ≤ n ∧ n < 0x100000000) :
    members.optionalPosition path name = .ok (.ofNat n.toNat) := by
  rw [Members.optionalPosition, hget]
  simp only [hinteger]
  rw [if_pos hbounds]

theorem integer?_positionToJson (n : UInt32) :
    (Location.positionToJson n).integer? = some (n.toNat : Int) := by
  have hlt : n.toNat < 0x100000000 := n.toNat_lt
  have hfits : Number.fits n.toNat = true := by
    simp only [Number.fits, Bool.and_eq_true, decide_eq_true_eq]
    omega
  rw [Location.positionToJson, integer?, Number.toInteger?_integer hfits]

/-- Every position but zero is read back. -/
theorem optionalPosition_eq_ok {n : UInt32} (hn : n ≠ 0)
    (h : members.get? name = some (Location.positionToJson n)) :
    members.optionalPosition path name = .ok n := by
  -- Positions are 32-bit words, so zero is the only one that is refused.
  have hbounds : (1 : Int) ≤ n.toNat ∧ (n.toNat : Int) < 0x100000000 := by
    have hlt : n.toNat < 0x100000000 := n.toNat_lt
    have hpos : n.toNat ≠ 0 := fun hzero => hn (UInt32.toNat_inj.1 hzero)
    omega
  rw [optionalPosition_of_integer h (integer?_positionToJson n) hbounds, Int.toNat_natCast,
    UInt32.ofNat_toNat]

theorem readItems_map_eq_ok {α : Type} {write : α → Json} {read : Path → Json → Decoded α}
    {as : List α} (hread : ∀ a ∈ as, ∀ path, read path (write a) = .ok a) (path : Path) :
    readItems path (as.map write) read = .ok as := by
  rw [readItems, mapM_eq_ok_iff]
  -- Items are read under their indices, which count on from any start.
  generalize 0 = start
  induction as generalizing start with
  | nil => exact .nil
  | cons a as ih =>
      refine .cons (hread a (by simp) _) (ih ?_ (start + 1))
      exact fun b hb => hread b (by simp [hb])

end Json

namespace Reflection

theorem location_eq_ok {l : Location} {file : String} (hl : l.StandsIn file) {members : Members}
    (h : members.get? "location" = some l.toJson) (path : Path) :
    location file path members = .ok l := by
  obtain ⟨rfl, hline, hcolumn⟩ := hl
  rw [location, h]
  refine bind_eq_ok_iff.2 ⟨_, rfl, ?_⟩
  refine bind_eq_ok_iff.2 ⟨l.line, Json.optionalPosition_eq_ok hline rfl, ?_⟩
  exact bind_eq_ok_iff.2 ⟨l.column, Json.optionalPosition_eq_ok hcolumn rfl, rfl⟩

/-! ## Types -/

/-- An object with a kind and a location is read as a type of this kind. -/
theorem typeWithin_object {file kind : String} {l : Location} (hl : l.StandsIn file)
    {members : Members} (hkind : members.get? "kind" = some (.string kind))
    (hlocation : members.get? "location" = some l.toJson) (levels : Nat) (path : Path) :
    typeWithin file (levels + 1) path (.object members) =
      typeOfKind (typeWithin file levels) path members l kind := by
  rw [typeWithin]
  simp only [Json.requireMembers, Json.members?, bind, Except.bind,
    Json.requireString_eq_ok hkind, location_eq_ok hl hlocation path]

section TypeParts

variable {read : Path → Json → Decoded PklType} {path : Path} {members : Members} {name : String}

theorem typePart_eq_ok {e : PklType} (h : members.get? name = some e.toJson)
    (hread : ∀ path, read path e.toJson = .ok e) : typePart read path members name = .ok e := by
  rw [typePart, h]
  exact hread _

theorem typeParts_eq_ok {es : List PklType}
    (h : members.get? name = some (.array (PklType.toJsonAll es)))
    (hread : ∀ e ∈ es, ∀ path, read path e.toJson = .ok e) :
    typeParts read path members name = .ok es := by
  refine bind_eq_ok_iff.2 ⟨_, Json.optionalItems_eq_ok h, ?_⟩
  rw [PklType.toJsonAll_eq_map]
  exact Json.readItems_map_eq_ok hread _

end TypeParts

-- The recursion is on the type; each part is read with one level less.
mutual

/-- A type is read back when there are more levels than it is deep. -/
theorem typeWithin_toJson {file : String} : ∀ {e : PklType} {levels : Nat},
    e.StandsIn file → e.depth < levels → ∀ path, typeWithin file levels path e.toJson = .ok e
  | _, 0, _, hdepth, _ => absurd hdepth (Nat.not_lt_zero _)
  | .missing, _ + 1, hstands, _, _ => hstands.elim
  | .primitive l type, levels + 1, hl, _, path => by
      rw [PklType.toJson, typeWithin_object hl rfl rfl, typeOfKind]
      refine bind_eq_ok_iff.2 ⟨_, Json.requireString_eq_ok rfl, ?_⟩
      rw [Primitive.ofName?_name]
      rfl
  | .declared l ref, levels + 1, hl, _, path => by
      rw [PklType.toJson, typeWithin_object hl rfl rfl, typeOfKind]
      exact bind_eq_ok_iff.2 ⟨_, Json.requireString_eq_ok rfl, rfl⟩
  | .literal l value, levels + 1, hl, _, path => by
      rw [PklType.toJson, typeWithin_object hl rfl rfl, typeOfKind]
      exact bind_eq_ok_iff.2 ⟨_, Json.requireString_eq_ok rfl, rfl⟩
  | .unsupported l spelling, levels + 1, hl, _, path => by
      rw [PklType.toJson, typeWithin_object hl rfl rfl, typeOfKind]
      exact bind_eq_ok_iff.2 ⟨_, Json.requireString_eq_ok rfl, rfl⟩
  | .nullable l inner, levels + 1, ⟨hl, hinner⟩, hdepth, path => by
      have hbelow : inner.depth < levels := by simpa [PklType.depth] using hdepth
      rw [PklType.toJson, typeWithin_object hl rfl rfl, typeOfKind]
      exact bind_eq_ok_iff.2 ⟨_, typePart_eq_ok rfl (typeWithin_toJson hinner hbelow), rfl⟩
  | .union l members, levels + 1, ⟨hl, hmembers⟩, hdepth, path => by
      have hbelow : PklType.depthAll members ≤ levels := by
        simpa [PklType.depth, Nat.lt_succ_iff] using hdepth
      rw [PklType.toJson, typeWithin_object hl rfl rfl, typeOfKind]
      exact bind_eq_ok_iff.2 ⟨_, typeParts_eq_ok rfl (typeWithin_toJsonAll hmembers hbelow), rfl⟩
  | .generic l base arguments, levels + 1, ⟨hl, hbase, harguments⟩, hdepth, path => by
      have hbelow : base.depth < levels ∧ PklType.depthAll arguments ≤ levels := by
        simp only [PklType.depth] at hdepth
        omega
      rw [PklType.toJson, typeWithin_object hl rfl rfl, typeOfKind]
      refine bind_eq_ok_iff.2 ⟨_, typePart_eq_ok rfl (typeWithin_toJson hbase hbelow.1), ?_⟩
      exact bind_eq_ok_iff.2
        ⟨_, typeParts_eq_ok rfl (typeWithin_toJsonAll harguments hbelow.2), rfl⟩
  | .function l parameters result, levels + 1, ⟨hl, hparameters, hresult⟩, hdepth, path => by
      have hbelow : PklType.depthAll parameters ≤ levels ∧ result.depth < levels := by
        simp only [PklType.depth] at hdepth
        omega
      rw [PklType.toJson, typeWithin_object hl rfl rfl, typeOfKind]
      refine bind_eq_ok_iff.2
        ⟨_, typeParts_eq_ok rfl (typeWithin_toJsonAll hparameters hbelow.1), ?_⟩
      exact bind_eq_ok_iff.2 ⟨_, typePart_eq_ok rfl (typeWithin_toJson hresult hbelow.2), rfl⟩

theorem typeWithin_toJsonAll {file : String} : ∀ {es : List PklType} {levels : Nat},
    PklType.StandAllIn file es → PklType.depthAll es ≤ levels →
      ∀ e ∈ es, ∀ path, typeWithin file levels path e.toJson = .ok e
  | [], _, _, _ => by simp
  | e :: es, levels, ⟨he, hes⟩, hdepth => by
      have hbelow : e.depth < levels ∧ PklType.depthAll es ≤ levels := by
        simp only [PklType.depthAll] at hdepth
        omega
      rw [List.forall_mem_cons]
      exact ⟨typeWithin_toJson he hbelow.1, typeWithin_toJsonAll hes hbelow.2⟩

end

theorem type_eq_ok {e : PklType} {file : String} (he : e.Representable file) (path : Path) :
    type file path e.toJson = .ok e :=
  typeWithin_toJson he.standsIn (Nat.lt_succ_of_le he.depth_le) path

/-! ## Declarations -/

theorem property_toJson {p : Property} {file : String} (hp : p.Representable file) (path : Path) :
    property file path p.toJson = .ok p := by
  refine bind_eq_ok_iff.2 ⟨_, rfl, ?_⟩
  refine bind_eq_ok_iff.2 ⟨_, Json.requireString_eq_ok rfl, ?_⟩
  refine bind_eq_ok_iff.2 ⟨_, type_eq_ok hp.type _, ?_⟩
  refine bind_eq_ok_iff.2 ⟨_, Json.optionalString_eq_ok (s := p.doc) (by simp), ?_⟩
  refine bind_eq_ok_iff.2 ⟨_, Json.optionalFlag_eq_ok rfl, ?_⟩
  exact bind_eq_ok_iff.2 ⟨_, location_eq_ok hp.location rfl _, rfl⟩

section Members

variable (d : Declaration)

theorem get?_doc : d.members.get? "doc" = d.doc.map .string := by
  simp [Declaration.members]

theorem get?_superclass : d.members.get? "superclass" = d.superclass.map .string := by
  simp [Declaration.members]

theorem get?_aliasedType : d.members.get? "aliasedType" = d.aliasedTypeToJson? := by
  simp [Declaration.members]

theorem get?_pythonName : d.members.get? "pythonName" = none := by
  simp [Declaration.members]

end Members

variable {d : Declaration} {moduleName file : String}

theorem declarationKind_eq_ok {members : Members} {kind : Declaration.Kind}
    (h : members.get? "kind" = some (.string kind.name)) (path : Path) :
    declarationKind path members = .ok kind := by
  refine bind_eq_ok_iff.2 ⟨_, Json.requireString_eq_ok h, ?_⟩
  rw [Declaration.Kind.ofName?_name]
  rfl

theorem superclass_eq_ok (h : Inherits d) (path : Path) :
    superclass path d.members d.kind = .ok d.superclass := by
  refine bind_eq_ok_iff.2 ⟨_, Json.optionalString_eq_ok (get?_superclass d), ?_⟩
  have hstray : ¬ (d.superclass.isSome && !d.kind.mayInherit) = true := by
    simpa [Inherits] using h
  rw [if_neg hstray]
  rfl

theorem aliasedType_eq_ok (h : d.Representable moduleName file) (path : Path) :
    aliasedType file path d.members d.kind = .ok d.aliasedType := by
  by_cases halias : d.kind = .typeAlias
  · have htype := h.aliasedType halias
    -- A type that stands somewhere is not missing, and so it is written down.
    have hgiven : d.aliasedTypeToJson? = some d.aliasedType.toJson := by
      rw [Declaration.aliasedTypeToJson?, htype.standsIn.isMissing_eq]
      rfl
    rw [aliasedType.eq_def, get?_aliasedType, hgiven, halias]
    exact type_eq_ok htype _
  · have hnone : d.aliasedTypeToJson? = none := by
      simp [Declaration.aliasedTypeToJson?, h.aliasedType_eq halias, PklType.isMissing]
    rw [aliasedType.eq_def, get?_aliasedType, hnone, h.aliasedType_eq halias]
    cases hkind : d.kind with
    | typeAlias => exact absurd hkind halias
    | moduleClass => rfl
    | ordinaryClass => rfl
    | enumeration => rfl

theorem declaration_toJson (h : d.Representable moduleName file) (path : Path) :
    declaration moduleName file path d.toJson = .ok d := by
  have hvalues : ∀ path, Json.readItems path (d.values.map .string)
      (fun path json => json.requireText path) = .ok d.values :=
    Json.readItems_map_eq_ok fun _ _ _ => rfl
  refine bind_eq_ok_iff.2 ⟨d.members, rfl, ?_⟩
  refine bind_eq_ok_iff.2 ⟨d.kind, declarationKind_eq_ok rfl _, ?_⟩
  refine bind_eq_ok_iff.2 ⟨d.name, Json.requireString_eq_ok rfl, ?_⟩
  refine bind_eq_ok_iff.2 ⟨d.location, location_eq_ok h.location rfl _, ?_⟩
  refine bind_eq_ok_iff.2 ⟨d.doc, Json.optionalString_eq_ok (get?_doc d), ?_⟩
  refine bind_eq_ok_iff.2 ⟨d.superclass, superclass_eq_ok h.inherits _, ?_⟩
  refine bind_eq_ok_iff.2 ⟨_, Json.optionalItems_eq_ok rfl, ?_⟩
  refine bind_eq_ok_iff.2 ⟨d.properties,
    Json.readItems_map_eq_ok (fun p hp => property_toJson (h.properties p hp)) _, ?_⟩
  refine bind_eq_ok_iff.2 ⟨_, Json.optionalItems_eq_ok rfl, ?_⟩
  refine bind_eq_ok_iff.2 ⟨d.values, hvalues _, ?_⟩
  refine bind_eq_ok_iff.2 ⟨d.aliasedType, aliasedType_eq_ok h _, ?_⟩
  rw [← h.moduleName_eq]
  rfl

theorem requestedName_toJson (d : Declaration) (path : Path) :
    requestedName path d.toJson = .ok none :=
  bind_eq_ok_iff.2 ⟨d.members, rfl, Json.optionalString_eq_ok (get?_pythonName d)⟩

/-! ## Modules

The session only gathers bindings, so it never keeps a reading from success. -/

/-- The reading gives `a`, whatever the session holds. -/
def Reads {α : Type} (x : Session α) (a : α) : Prop :=
  ∀ s, ∃ s', x.run.run s = (.ok a, s')

namespace Reads

variable {α β : Type}

theorem bind {x : Session α} {f : α → Session β} {a : α} {b : β} (hx : Reads x a)
    (hf : Reads (f a) b) : Reads (x >>= f) b := by
  intro s
  obtain ⟨t, ht⟩ := hx s
  obtain ⟨s', hs'⟩ := hf t
  exact ⟨s', run_bind_eq_ok_iff.2 ⟨a, t, ht, hs'⟩⟩

theorem of_pure (a : α) : Reads (pure a) a :=
  fun s => ⟨s, rfl⟩

theorem of_liftExcept {x : Decoded α} {a : α} (hx : x = .ok a) : Reads (liftExcept x) a := by
  intro s
  exact ⟨s, run_liftExcept_eq_ok_iff.2 ⟨hx, rfl⟩⟩

theorem of_modify (f : List Binding → List Binding) : Reads (modify f) () :=
  fun s => ⟨f s, rfl⟩

theorem readItems_map {write : α → Json} {read : Path → Json → Session α} {as : List α}
    (hread : ∀ a ∈ as, ∀ path, Reads (read path (write a)) a) (path : Path) :
    Reads (Json.readItems path (as.map write) read) as := by
  rw [Json.readItems]
  generalize 0 = start
  induction as generalizing start with
  | nil => exact of_pure []
  | cons a as ih =>
      have hothers := ih (fun b hb => hread b (List.mem_cons_of_mem a hb)) (start + 1)
      rw [List.map_cons, List.zipIdx_cons, List.mapM_cons]
      exact (hread a List.mem_cons_self _).bind (hothers.bind (of_pure _))

end Reads

theorem reads_declarationIn (h : d.Representable moduleName file) (space : String) (path : Path) :
    Reads (declarationIn moduleName file space path d.toJson) d :=
  (Reads.of_liftExcept (declaration_toJson h path)).bind <|
    (Reads.of_liftExcept (requestedName_toJson d path)).bind <|
      (Reads.of_modify _).bind (Reads.of_pure d)

theorem reads_moduleIn {m : Module} {source : String}
    (h : ∀ d ∈ m.declarations, d.Representable m.name (m.file source)) (path : Path) :
    Reads (moduleIn source path m.toJson) m := by
  have hhead : moduleHead path [("name", .string m.name), ("uri", .string m.uri),
      ("declarations", .array (m.declarations.map Declaration.toJson))] =
        .ok (m.name, m.uri, m.name) := by
    refine bind_eq_ok_iff.2 ⟨_, Json.requireString_eq_ok rfl, ?_⟩
    -- No namespace is written down; it counts for default bindings alone.
    refine bind_eq_ok_iff.2 ⟨some m.uri, Json.optionalString_eq_ok rfl, ?_⟩
    exact bind_eq_ok_iff.2 ⟨none, Json.optionalString_eq_ok rfl, rfl⟩
  refine (Reads.of_liftExcept rfl).bind ((Reads.of_liftExcept hhead).bind ?_)
  refine (Reads.of_liftExcept (Json.optionalItems_eq_ok rfl)).bind ?_
  exact (Reads.readItems_map (fun d hd => reads_declarationIn (h d hd) _) _).bind (Reads.of_pure m)

/-! ## Bindings -/

theorem binding_toJson {b : Binding} {source : String} (hb : b.location.StandsIn source)
    (path : Path) : binding source path b.toJson = .ok b := by
  refine bind_eq_ok_iff.2 ⟨_, rfl, ?_⟩
  refine bind_eq_ok_iff.2 ⟨b.kind, declarationKind_eq_ok rfl _, ?_⟩
  refine bind_eq_ok_iff.2 ⟨b.source, Json.requireString_eq_ok rfl, ?_⟩
  refine bind_eq_ok_iff.2 ⟨b.space, Json.requireString_eq_ok rfl, ?_⟩
  refine bind_eq_ok_iff.2 ⟨b.name, Json.requireString_eq_ok rfl, ?_⟩
  exact bind_eq_ok_iff.2 ⟨b.location, location_eq_ok hb rfl _, rfl⟩

/-- Bindings are read back behind others as long as no source comes twice. -/
theorem bindingsFrom_toJson {source : String} {earlier bindings : List Binding}
    (hnodup : (sources (earlier ++ bindings)).Nodup)
    (hstand : ∀ b ∈ bindings, b.location.StandsIn source) :
    bindingsFrom source earlier (bindings.map Binding.toJson) = .ok bindings := by
  induction bindings generalizing earlier with
  | nil => rfl
  | cons b bs ih =>
      rw [List.forall_mem_cons] at hstand
      -- An earlier binding of this source would have it come twice.
      have hnew : earlier.findIdx? (·.source = b.source) = none := by
        rw [List.findIdx?_eq_none_iff]
        intro c hc
        rw [sources, List.map_append, List.map_cons, List.nodup_append] at hnodup
        simpa using hnodup.2.2 c.source (List.mem_map_of_mem hc) b.source List.mem_cons_self
      rw [List.map_cons, bindingsFrom]
      refine bind_eq_ok_iff.2 ⟨b, binding_toJson hstand.1 _, ?_⟩
      rw [hnew]
      refine bind_eq_ok_iff.2 ⟨bs, ih ?_ hstand.2, rfl⟩
      rwa [List.append_assoc, List.singleton_append]

/-! ## Schemas -/

theorem moduleItems_toJson {schema : Schema} (hne : schema.modules ≠ []) :
    moduleItems [("modules", .array (schema.modules.map Module.toJson)),
      ("mappings", .array (schema.bindings.entries.map Binding.toJson))] =
        .ok (schema.modules.map Module.toJson) := by
  cases hmodules : schema.modules with
  | nil => exact absurd hmodules hne
  | cons m ms => rfl

theorem reads_schema {schema : Schema} {source : String} (h : schema.Representable source) :
    Reads (Reflection.schema source schema.toJson) schema := by
  have hbindings : bindingsFrom source [] (schema.bindings.entries.map Binding.toJson) =
      .ok schema.bindings.entries :=
    bindingsFrom_toJson h.sources_nodup h.bindings
  refine (Reads.of_modify fun _ => []).bind ((Reads.of_liftExcept rfl).bind ?_)
  refine (Reads.of_liftExcept (moduleItems_toJson h.modules_ne)).bind ?_
  refine (Reads.readItems_map (fun m hm => reads_moduleIn (h.declarations m hm)) _).bind ?_
  -- What the session has gathered by now gives way to the bindings of the document.
  refine (Reads.of_liftExcept (Json.optionalItems_eq_ok rfl)).bind ?_
  refine (Reads.of_liftExcept hbindings).bind ?_
  exact (Reads.of_modify fun _ => []).bind (Reads.of_pure schema)

end Reflection

/-- Reading the document of a schema gives the schema. -/
theorem Schema.ofJson_toJson {schema : Schema} {source : String}
    (h : schema.Representable source) : Schema.ofJson source schema.toJson = .ok schema := by
  obtain ⟨s, hrun⟩ := Reflection.reads_schema h []
  rw [ofJson, mapError_eq_ok_iff]
  exact congrArg Prod.fst hrun

/-- A schema with a type of every kind, and with documentation that is empty. -/
def treeSchema : Schema where
  modules := [
    { name := "tree"
      uri := "tree.pkl"
      declarations := [
        { kind := .moduleClass, name := "Tree", moduleName := "tree",
          location := ⟨"tree.pkl", 1, 1⟩, doc := some "", superclass := some "base"
          properties := [
            { name := "nodes", hidden := true, location := ⟨"tree.pkl", 2, 3⟩
              type := .generic ⟨"tree.pkl", 2, 10⟩ (.primitive ⟨"tree.pkl", 2, 10⟩ .list)
                [.nullable ⟨"tree.pkl", 2, 15⟩ (.declared ⟨"tree.pkl", 2, 15⟩ "tree#Node")] }] },
        { kind := .typeAlias, name := "Node", moduleName := "tree",
          location := ⟨"tree.pkl", 4, 1⟩
          aliasedType := .union ⟨"tree.pkl", 4, 18⟩ [.literal ⟨"tree.pkl", 4, 18⟩ "leaf",
            .function ⟨"tree.pkl", 4, 27⟩ [] (.unsupported ⟨"tree.pkl", 4, 33⟩ "nothing")] }] }]
  bindings := ⟨[
    { kind := .typeAlias, source := "tree#Node", location := ⟨"s", 1, 4294967295⟩, space := "out",
      name := "Node" }]⟩

theorem treeSchema_representable : treeSchema.Representable "s" := by
  have hstands {line column : UInt32} (hline : line ≠ 0) (hcolumn : column ≠ 0) (file : String) :
      (Location.mk file line column).StandsIn file := ⟨rfl, hline, hcolumn⟩
  refine ⟨by simp [treeSchema], ?_, by decide, ?_⟩
  · simp only [treeSchema, List.forall_mem_cons]
    refine ⟨⟨?_, ?_, by simp⟩, by simp⟩
    · refine ⟨rfl, hstands (by decide) (by decide) _, fun _ => rfl, ?_, fun h => ?_, fun _ => rfl⟩
      · simp only [List.forall_mem_cons]
        refine ⟨⟨⟨?_, by decide⟩, hstands (by decide) (by decide) _⟩, by simp⟩
        simp [PklType.StandsIn, PklType.StandAllIn, hstands, Module.file]
      · cases h
    · refine ⟨rfl, hstands (by decide) (by decide) _, fun h => ?_, by simp, fun _ => ?_,
        fun h => ?_⟩
      · cases h
      · refine ⟨?_, by decide⟩
        simp [PklType.StandsIn, PklType.StandAllIn, hstands, Module.file]
      · exact absurd rfl h
  · simp only [treeSchema, List.forall_mem_cons]
    exact ⟨hstands (by decide) (by decide) _, by simp⟩

/-- The schema is read back from its document. -/
theorem ofJson_toJson_treeSchema : treeSchema.Representable "s" ∧
    Schema.ofJson "s" treeSchema.toJson = .ok treeSchema :=
  ⟨treeSchema_representable, Schema.ofJson_toJson treeSchema_representable⟩

end PklBindings
