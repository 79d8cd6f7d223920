import PklBindings.Proofs.DeclarationAcceptance

/-!
# Which documents are read

A document is read exactly when it has the form that the grammar asks for
(`Schema.ofJson_succeeds_iff_isSchema`). Modules are read in a session, which gathers the default
bindings and never keeps a reading from success (`SucceedsWhen`).
-/

namespace PklBindings

open Json (Path Members)

namespace Reflection

variable {file : String} {path : Path} {members : Members} {json : Json}

/-! ## Modules

The session keeps no reading from success: it holds what has been read, and is never asked. -/

/-- Whatever the session holds, the reading succeeds exactly under the condition. -/
def SucceedsWhen {α : Type} (x : Session α) (P : Prop) : Prop :=
  ∀ s, Succeeds (x.run.run s).1 ↔ P

namespace SucceedsWhen

variable {α β : Type} {P Q : Prop}

theorem of_pure (a : α) : SucceedsWhen (pure a) True :=
  fun _ => ⟨fun _ => trivial, fun _ => ⟨a, rfl⟩⟩

theorem of_modify (f : List Binding → List Binding) : SucceedsWhen (modify f) True :=
  fun _ => ⟨fun _ => trivial, fun _ => ⟨(), rfl⟩⟩

theorem of_liftExcept {x : Decoded α} (h : Succeeds x ↔ P) : SucceedsWhen (liftExcept x) P :=
  fun _ => by rwa [run_liftExcept]

/-- Of two steps, both have to succeed; the second may ask for more than the first gives. -/
theorem bind_of_run {x : Session α} {f : α → Session β} {R : α → Prop}
    (hf : ∀ a, SucceedsWhen (f a) (R a))
    (hx : ∀ s, (∃ a t, x.run.run s = (.ok a, t) ∧ R a) ↔ P) : SucceedsWhen (x >>= f) P := by
  intro s
  rw [← hx s, run_bind]
  rcases x.run.run s with ⟨result, t⟩
  cases result with
  | error e =>
      constructor
      · intro h
        exact absurd h (not_succeeds_error e)
      · rintro ⟨_, _, h, -⟩
        cases h
  | ok a =>
      constructor
      · intro h
        exact ⟨a, t, rfl, (hf a t).1 h⟩
      · rintro ⟨_, _, h, hR⟩
        cases h
        exact (hf a t).2 hR

theorem bind {x : Session α} {f : α → Session β} (hx : SucceedsWhen x P)
    (hf : ∀ a, SucceedsWhen (f a) Q) : SucceedsWhen (x >>= f) (P ∧ Q) := by
  refine bind_of_run hf fun s => ?_
  rw [← hx s]
  constructor
  · rintro ⟨a, t, hrun, hQ⟩
    exact ⟨⟨a, congrArg Prod.fst hrun⟩, hQ⟩
  · rintro ⟨⟨a, ha⟩, hQ⟩
    exact ⟨a, _, Prod.ext ha rfl, hQ⟩

theorem liftExcept_bind {x : Decoded α} {f : α → Session β} {R : α → Prop}
    (hf : ∀ a, SucceedsWhen (f a) (R a)) :
    SucceedsWhen (liftExcept x >>= f) (∃ a, x = .ok a ∧ R a) := by
  refine bind_of_run hf fun s => exists_congr fun a => ?_
  simp only [run_liftExcept_eq_ok_iff, exists_and_right, exists_and_left, exists_eq', and_true]

theorem congr {x : Session α} (hx : SucceedsWhen x P) (h : P ↔ Q) : SucceedsWhen x Q :=
  fun s => (hx s).trans h

theorem readItems {read : Path → Json → Session α} {form : Json → Prop}
    (hread : ∀ path json, SucceedsWhen (read path json) (form json)) (path : Path)
    (items : List Json) :
    SucceedsWhen (Json.readItems path items read) (∀ item ∈ items, form item) := by
  rw [Json.readItems]
  generalize 0 = start
  induction items generalizing start with
  | nil => exact (of_pure []).congr (by simp)
  | cons item items ih =>
      rw [List.zipIdx_cons, List.mapM_cons, List.forall_mem_cons]
      refine (hread _ item).bind fun a => ?_
      exact ((ih (start + 1)).bind fun others => of_pure (a :: others)).congr (and_true _).to_iff

/-- An array that may be left out is read item by item in the session. -/
theorem items {read : Path → Json → Session α} {form : Json → Prop}
    (hread : ∀ path json, SucceedsWhen (read path json) (form json)) {f : List α → Session β}
    (hf : ∀ as, SucceedsWhen (f as) True) {members : Members} {path path' : Path}
    {name : String} :
    SucceedsWhen (do
        let items ← liftExcept (members.optionalItems path name)
        let as ← Json.readItems path' items read
        f as)
      (members.MayHave name (Json.IsArrayOf form)) := by
  refine (liftExcept_bind fun items => (readItems hread path' items).bind hf).congr ?_
  simp only [Members.optionalItems_eq_ok_iff, and_true, Members.MayHave, Json.IsArrayOf]
  cases members.get? name with
  | none => simp
  | some json => simp [eq_comm]

end SucceedsWhen

theorem declarationIn_succeedsWhen {moduleName space : String} :
    SucceedsWhen (declarationIn moduleName file space path json) json.IsDeclaration := by
  have hread : SucceedsWhen (declarationIn moduleName file space path json)
      (Succeeds (declaration moduleName file path json) ∧ Succeeds (requestedName path json)) := by
    refine (SucceedsWhen.of_liftExcept Iff.rfl).bind fun d => ?_
    refine ((SucceedsWhen.of_liftExcept Iff.rfl).bind fun requested => ?_).congr
      (and_true _).to_iff
    exact ((SucceedsWhen.of_modify _).bind fun _ => SucceedsWhen.of_pure d).congr (by simp)
  exact hread.congr succeeds_declaration_and_requestedName_iff

theorem succeeds_moduleHead_iff :
    Succeeds (moduleHead path members) ↔ members.Has "name" Json.IsText ∧
      members.MayHave "uri" (Json.IsNullOr Json.IsText) ∧
        members.MayHave "namespace" (Json.IsNullOr Json.IsText) := by
  rw [moduleHead, succeeds_bind_and_iff fun _ => succeeds_bind_and_iff fun _ =>
      succeeds_bind_pure_iff,
    Members.succeeds_requireString_iff, Members.succeeds_optionalString_iff,
    Members.succeeds_optionalString_iff]

/-- What is left to do for a module once its members are there. -/
theorem moduleIn_members_succeedsWhen {source : String} (members : Members) :
    SucceedsWhen (do
        let (name, uri, space) ← liftExcept (moduleHead path members)
        let items ← liftExcept (members.optionalItems path "declarations")
        let file := if uri = "" then source else uri
        let declarations ← Json.readItems (path.member "declarations") items
          (declarationIn name file space)
        return Module.mk name uri declarations) (Json.ModuleForm members) := by
  refine SucceedsWhen.congr (P := Succeeds (moduleHead path members) ∧
    members.MayHave "declarations" (Json.IsArrayOf Json.IsDeclaration)) ?_ ?_
  · refine (SucceedsWhen.of_liftExcept Iff.rfl).bind ?_
    rintro ⟨name, uri, space⟩
    have hdeclaration : ∀ file path json, SucceedsWhen (declarationIn name file space path json)
        json.IsDeclaration := fun _ _ _ => declarationIn_succeedsWhen
    exact SucceedsWhen.items (hdeclaration _) fun declarations => SucceedsWhen.of_pure _
  · rw [succeeds_moduleHead_iff]
    constructor
    · rintro ⟨⟨hname, huri, hspace⟩, hdeclarations⟩
      exact ⟨hname, huri, hspace, hdeclarations⟩
    · intro h
      exact ⟨⟨h.name, h.uri, h.space⟩, h.declarations⟩

theorem moduleIn_succeedsWhen {source : String} :
    SucceedsWhen (moduleIn source path json) json.IsModule := by
  refine (SucceedsWhen.liftExcept_bind moduleIn_members_succeedsWhen).congr ?_
  simp only [Json.requireMembers_eq_ok_iff]
  exact Iff.rfl

/-! ## Bindings -/

theorem succeeds_binding_iff {source : String} :
    Succeeds (binding source path json) ↔ json.IsBinding := by
  refine Json.succeeds_requireMembers_iff fun members => ?_
  have hkind : Succeeds (declarationKind path members) ↔ members.Has "kind" Json.IsKind := by
    rw [Succeeds]
    simp only [declarationKind_eq_ok_iff]
    constructor
    · rintro ⟨kind, hget⟩
      exact (Members.has_kind_iff hget).2 kind.name_mem_names
    · rintro ⟨_, hget, word, hword, rfl⟩
      obtain ⟨kind, rfl⟩ := Declaration.Kind.exists_name_eq hword
      exact ⟨kind, hget⟩
  rw [succeeds_bind_and_iff fun _ => succeeds_bind_and_iff fun _ => succeeds_bind_and_iff fun _ =>
      succeeds_bind_and_iff fun _ => succeeds_bind_pure_iff,
    hkind, Members.succeeds_requireString_iff, Members.succeeds_requireString_iff,
    Members.succeeds_requireString_iff, succeeds_location_iff]
  constructor
  · rintro ⟨hkind, hsource, hspace, hname, hlocation⟩
    exact ⟨hkind, hsource, hspace, hname, hlocation⟩
  · intro h
    exact ⟨h.kind, h.source, h.space, h.name, h.location⟩

/-- A binding has the source that its value says, and no other. -/
theorem hasSource_iff_of_binding {source : String} {b : Binding}
    (h : binding source path json = .ok b) {s : String} :
    json.HasSource s ↔ s = b.source := by
  obtain ⟨members, hmembers, h⟩ := bind_eq_ok_iff.1 h
  obtain ⟨kind, -, h⟩ := bind_eq_ok_iff.1 h
  obtain ⟨qualifiedName, hsource, h⟩ := bind_eq_ok_iff.1 h
  obtain ⟨space, -, h⟩ := bind_eq_ok_iff.1 h
  obtain ⟨name, -, h⟩ := bind_eq_ok_iff.1 h
  obtain ⟨l, -, h⟩ := bind_eq_ok_iff.1 h
  cases h
  rw [Json.requireMembers_eq_ok_iff] at hmembers
  rw [Members.requireString_eq_ok_iff] at hsource
  subst hmembers
  simp [Json.HasSource, Json.IsObject, Members.Has, Json.IsWord, hsource, eq_comm]

/-- A binding that has been read goes behind others unless one of them has its source. -/
theorem succeeds_addBinding_iff {source : String} {earlier : List Binding} {items : List Json}
    {b : Binding} :
    Succeeds (match earlier.findIdx? (·.source = b.source) with
        | some first => ((bindingsPath.item earlier.length).member "source").fail
            (.duplicateBinding b.source (bindingsPath.item first))
        | none => do
          let bindings ← bindingsFrom source (earlier ++ [b]) items
          return b :: bindings) ↔
      (∀ c ∈ earlier, c.source ≠ b.source) ∧
        Succeeds (bindingsFrom source (earlier ++ [b]) items) := by
  have hnone : earlier.findIdx? (·.source = b.source) = none ↔
      ∀ c ∈ earlier, c.source ≠ b.source := by
    simp [List.findIdx?_eq_none_iff]
  rw [← hnone]
  cases earlier.findIdx? (·.source = b.source) with
  | none => rw [succeeds_bind_pure_iff]; simp
  | some first => simp

/-- Bindings are read behind others as long as no source comes twice. -/
theorem succeeds_bindingsFrom_iff {source : String} {earlier : List Binding} {items : List Json} :
    Succeeds (bindingsFrom source earlier items) ↔ (∀ item ∈ items, item.IsBinding) ∧
      (items.Pairwise fun a b => ∀ s, Json.HasSource s a → ¬ Json.HasSource s b) ∧
        ∀ b ∈ earlier, ∀ item ∈ items, ¬ item.HasSource b.source := by
  induction items generalizing earlier with
  | nil => simp [bindingsFrom]
  | cons item items ih =>
      rw [bindingsFrom, succeeds_bind_iff]
      refine (exists_congr fun b => and_congr_right fun _ => succeeds_addBinding_iff).trans ?_
      simp only [ih, List.forall_mem_cons, List.pairwise_cons, List.forall_mem_append]
      constructor
      · rintro ⟨b, hb, hfresh, hbindings, hpairwise, hearlier, hsource, -⟩
        refine ⟨⟨succeeds_binding_iff.1 ⟨b, hb⟩, hbindings⟩, ⟨fun other hother s hs => ?_,
          hpairwise⟩, fun c hc => ⟨fun hs => ?_, hearlier c hc⟩⟩
        · rw [(hasSource_iff_of_binding hb).1 hs]
          exact hsource other hother
        · exact hfresh c hc ((hasSource_iff_of_binding hb).1 hs)
      · rintro ⟨⟨hitem, hbindings⟩, ⟨hfirst, hpairwise⟩, hearlier⟩
        obtain ⟨b, hb⟩ : Succeeds (binding source (bindingsPath.item earlier.length) item) :=
          succeeds_binding_iff.2 hitem
        have hsource := (hasSource_iff_of_binding hb).2 rfl
        refine ⟨b, hb, fun c hc heq => (hearlier c hc).1 ?_, hbindings, hpairwise,
          fun c hc => (hearlier c hc).2, fun other hother => hfirst other hother _ hsource,
          by simp⟩
        rw [heq]
        exact hsource

/-! ## Schemas -/

theorem moduleItems_eq_ok_iff {items : List Json} :
    moduleItems members = .ok items ↔
      members.get? "modules" = some (.array items) ∧ items ≠ [] := by
  rw [moduleItems.eq_def]
  cases members.get? "modules" with
  | none => simp [Path.fail]
  | some json =>
      cases json with
      | array given =>
          cases given with
          | nil => simp [Json.items?, Path.fail, eq_comm]
          | cons first others =>
              constructor
              · rintro ⟨⟩
                exact ⟨rfl, List.cons_ne_nil _ _⟩
              · rintro ⟨⟨⟩, -⟩
                rfl
      | _ => simp [Json.items?, Path.fail]

/-- The bindings that a document gives are read, if it gives any. -/
theorem schema_bindings_succeedsWhen {source : String} (modules : List Module) :
    SucceedsWhen (match members.get? "mappings" with
        | none => do
          let derived ← getModify fun _ => []
          return Schema.mk modules ⟨derived⟩
        | some _ => do
          let items ← liftExcept (members.optionalItems .root "mappings")
          let bindings ← liftExcept (bindingsFrom source [] items)
          set ([] : List Binding)
          return Schema.mk modules ⟨bindings⟩)
      (members.MayHave "mappings" Json.IsBindingArray) := by
  cases hget : members.get? "mappings" with
  | none =>
      exact fun s => ⟨fun _ => by simp [Members.MayHave, hget], fun _ => ⟨_, rfl⟩⟩
  | some json =>
      refine (SucceedsWhen.liftExcept_bind fun items =>
        (SucceedsWhen.of_liftExcept succeeds_bindingsFrom_iff).bind fun bindings =>
          (SucceedsWhen.of_modify _).bind fun _ => SucceedsWhen.of_pure _).congr ?_
      simp [Members.optionalItems_eq_ok_iff, hget, Members.MayHave, Json.IsBindingArray]

theorem schema_succeedsWhen {source : String} :
    SucceedsWhen (Reflection.schema source json) json.IsSchema := by
  have hmembers : ∀ members : Members, SucceedsWhen (do
        let items ← liftExcept (moduleItems members)
        let modules ← Json.readItems (.member .root "modules") items (moduleIn source)
        match members.get? "mappings" with
        | none => do
          let derived ← getModify fun _ => []
          return Schema.mk modules ⟨derived⟩
        | some _ => do
          let items ← liftExcept (members.optionalItems .root "mappings")
          let bindings ← liftExcept (bindingsFrom source [] items)
          set ([] : List Binding)
          return Schema.mk modules ⟨bindings⟩) (Json.SchemaForm members) := by
    intro members
    have hmodule : ∀ path json, SucceedsWhen (moduleIn source path json) json.IsModule :=
      fun _ _ => moduleIn_succeedsWhen
    refine (SucceedsWhen.liftExcept_bind fun items =>
      (SucceedsWhen.readItems hmodule _ items).bind schema_bindings_succeedsWhen).congr ?_
    simp only [moduleItems_eq_ok_iff]
    constructor
    · rintro ⟨items, ⟨hget, hne⟩, hmodules, hbindings⟩
      exact ⟨⟨_, hget, ⟨items, rfl, hmodules⟩, by simpa using hne⟩, hbindings⟩
    · rintro ⟨⟨_, hget, ⟨items, rfl, hmodules⟩, hne⟩, hbindings⟩
      exact ⟨items, ⟨hget, by simpa using hne⟩, hmodules, hbindings⟩
  refine ((SucceedsWhen.of_modify _).bind fun _ =>
    SucceedsWhen.liftExcept_bind hmembers).congr ?_
  rw [true_and]
  simp only [Json.requireMembers_eq_ok_iff]
  exact Iff.rfl

end Reflection

/-- A document is read exactly when it conforms to the grammar of schema documents. -/
theorem Schema.ofJson_succeeds_iff_isSchema (source : String) (json : Json) :
    (∃ schema, Schema.ofJson source json = .ok schema) ↔ json.IsSchema := by
  have hsession : Succeeds ((Reflection.schema source json).run.run []).1 ↔ json.IsSchema :=
    Reflection.schema_succeedsWhen []
  exact succeeds_mapError_iff.trans hsession

end PklBindings
