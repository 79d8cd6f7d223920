import Mathlib.Data.List.Enum
import PklBindings.Proofs.Results
import PklBindings.Proofs.SchemaGrammar
import PklBindings.Reflection.Decoder

/-!
# Which declarations are read

A value is read exactly when it has the form that the grammar asks for. For each reader there is one
statement: it succeeds on a value, wherever the value stands, exactly when the value is of the form.
Of types this holds at every depth (`Reflection.succeeds_typeWithin_iff`), and of declarations
together with the name that they ask for (`Reflection.succeeds_declaration_and_requestedName_iff`).
-/

namespace PklBindings

open Json (Path Members)

/-! ## Success -/

/-- The computation gives a value. -/
def Succeeds {ε α : Type} (x : Except ε α) : Prop :=
  ∃ a, x = .ok a

section Succeeds

variable {ε ε' α β : Type}

@[simp] theorem succeeds_ok (a : α) : Succeeds (.ok a : Except ε α) :=
  ⟨a, rfl⟩

@[simp] theorem succeeds_pure (a : α) : Succeeds (pure a : Except ε α) :=
  ⟨a, rfl⟩

@[simp] theorem not_succeeds_error (e : ε) : ¬ Succeeds (.error e : Except ε α) := by
  rintro ⟨a, h⟩
  cases h

theorem succeeds_ite_iff {P : Prop} [Decidable P] {a : α} {e : ε} :
    Succeeds (if P then .ok a else .error e : Except ε α) ↔ P := by
  by_cases h : P <;> simp [h]

theorem succeeds_bind_iff {x : Except ε α} {f : α → Except ε β} :
    Succeeds (x >>= f) ↔ ∃ a, x = .ok a ∧ Succeeds (f a) := by
  constructor
  · rintro ⟨b, h⟩
    obtain ⟨a, ha, hb⟩ := bind_eq_ok_iff.1 h
    exact ⟨a, ha, b, hb⟩
  · rintro ⟨a, ha, b, hb⟩
    exact ⟨b, bind_eq_ok_iff.2 ⟨a, ha, hb⟩⟩

/-- A step whose result does not count for the success of the next one. -/
theorem succeeds_bind_and_iff {x : Except ε α} {f : α → Except ε β} {P : Prop}
    (hf : ∀ a, Succeeds (f a) ↔ P) : Succeeds (x >>= f) ↔ Succeeds x ∧ P := by
  simp only [succeeds_bind_iff, hf, exists_and_right]
  rfl

@[simp] theorem succeeds_bind_pure_iff {x : Except ε α} {f : α → β} :
    Succeeds (do let a ← x; pure (f a)) ↔ Succeeds x := by
  rw [succeeds_bind_and_iff (P := True) (by simp), and_true]

theorem succeeds_map_iff {f : α → β} {x : Except ε α} : Succeeds (x.map f) ↔ Succeeds x := by
  cases x <;> simp [Except.map]

theorem succeeds_mapError_iff {f : ε → ε'} {x : Except ε α} :
    Succeeds (x.mapError f) ↔ Succeeds x :=
  exists_congr fun _ => mapError_eq_ok_iff

theorem succeeds_mapM_iff {f : α → Except ε β} {as : List α} :
    Succeeds (as.mapM f) ↔ ∀ a ∈ as, Succeeds (f a) := by
  induction as with
  | nil => simp
  | cons a as ih =>
      rw [List.mapM_cons, succeeds_bind_and_iff fun _ => succeeds_bind_pure_iff, ih,
        List.forall_mem_cons]

end Succeeds

@[simp] theorem not_succeeds_fail {α : Type} (path : Path) (fault : Fault) :
    ¬ Succeeds (path.fail fault : Decoded α) :=
  not_succeeds_error _

/-! ## Members of objects -/

namespace Json

variable {path : Path} {members : Members} {name : String} {json : Json}

theorem requireMembers_eq_ok_iff :
    json.requireMembers path = .ok members ↔ json = .object members := by
  cases json <;> simp [requireMembers, members?, Path.fail]

theorem requireText_eq_ok_iff {s : String} :
    json.requireText path = .ok s ↔ json = .string s := by
  cases json <;> simp [requireText, string?, Path.fail]

theorem succeeds_requireText_iff : Succeeds (json.requireText path) ↔ json.IsText :=
  exists_congr fun _ => requireText_eq_ok_iff

theorem isObject_and_isObject_iff {form form' : Members → Prop} :
    json.IsObject form ∧ json.IsObject form' ↔
      json.IsObject fun members => form members ∧ form' members := by
  constructor
  · rintro ⟨⟨members, rfl, h⟩, ⟨members', hmembers', h'⟩⟩
    obtain rfl : members = members' := by simpa using hmembers'
    exact ⟨members, rfl, h, h'⟩
  · rintro ⟨members, rfl, h, h'⟩
    exact ⟨⟨members, rfl, h⟩, members, rfl, h'⟩

/-- What is read from the members of an object is read from an object with such members. -/
theorem succeeds_requireMembers_iff {α : Type} {read : Members → Decoded α}
    {form : Members → Prop} (h : ∀ members, Succeeds (read members) ↔ form members) :
    Succeeds (json.requireMembers path >>= read) ↔ json.IsObject form := by
  rw [succeeds_bind_iff]
  exact exists_congr fun members => and_congr requireMembers_eq_ok_iff (h members)

namespace Members

theorem requireString_eq_ok_iff {s : String} :
    members.requireString path name = .ok s ↔ members.get? name = some (.string s) := by
  rw [requireString]
  cases members.get? name with
  | none => simp [Path.fail]
  | some json => simp [requireText_eq_ok_iff]

theorem succeeds_requireString_iff :
    Succeeds (members.requireString path name) ↔ members.Has name IsText := by
  rw [Succeeds]
  simp only [requireString_eq_ok_iff]
  constructor
  · rintro ⟨s, h⟩
    exact ⟨_, h, s, rfl⟩
  · rintro ⟨_, h, s, rfl⟩
    exact ⟨s, h⟩

/-- What is read of an optional text is the text, if there is one. -/
theorem string?_of_optionalString {s : Option String}
    (h : members.optionalString path name = .ok s) : (members.get? name).bind string? = s := by
  rw [optionalString] at h
  cases hget : members.get? name with
  | none =>
      rw [hget] at h
      cases h
      rfl
  | some json =>
      rw [hget] at h
      cases json <;> cases h <;> rfl

theorem succeeds_optionalString_iff :
    Succeeds (members.optionalString path name) ↔ members.MayHave name (IsNullOr IsText) := by
  rw [optionalString, MayHave]
  cases members.get? name with
  | none => simp
  | some json =>
      cases json <;> simp [succeeds_map_iff, succeeds_requireText_iff, IsNullOr, IsText]

theorem optionalItems_eq_ok_iff {items : List Json} :
    members.optionalItems path name = .ok items ↔
      members.get? name = some (.array items) ∨ members.get? name = none ∧ items = [] := by
  rw [optionalItems]
  cases members.get? name with
  | none => simp [eq_comm]
  | some json => cases json <;> simp [items?, Path.fail]

theorem succeeds_optionalFlag_iff :
    Succeeds (members.optionalFlag path name) ↔ members.MayHave name IsFlag := by
  rw [optionalFlag, MayHave]
  cases members.get? name with
  | none => simp
  | some json => cases json <;> simp [bool?, IsFlag]

theorem succeeds_optionalPosition_iff :
    Succeeds (members.optionalPosition path name) ↔ members.MayHave name IsPosition := by
  rw [optionalPosition, MayHave]
  cases members.get? name with
  | none => simp
  | some json =>
      simp only [Option.some.injEq, forall_eq', IsPosition]
      cases json.integer? with
      | none => simp
      | some n => simp only [Path.fail, succeeds_ite_iff, Option.some.injEq, exists_eq_left']

end Members

section Items

variable {α β : Type} {read : Path → Json → Decoded α} {form : Json → Prop}
    (hread : ∀ path json, Succeeds (read path json) ↔ form json)

include hread

theorem succeeds_readItems_iff {items : List Json} :
    Succeeds (readItems path items read) ↔ ∀ item ∈ items, form item := by
  rw [readItems, succeeds_mapM_iff, List.forall_mem_zipIdx', List.forall_mem_iff_getElem]
  simp only [hread]

/-- An array that may be left out is read item by item. -/
theorem Members.succeeds_items_iff {path' : Path} :
    Succeeds (do let items ← members.optionalItems path name; readItems path' items read) ↔
      members.MayHave name (IsArrayOf form) := by
  rw [succeeds_bind_iff]
  simp only [optionalItems_eq_ok_iff, Json.succeeds_readItems_iff hread, MayHave, IsArrayOf]
  cases members.get? name with
  | none => simp
  | some json => simp [eq_comm]

theorem Members.succeeds_items_and_iff {path' : Path} {f : List α → Decoded β} {P : Prop}
    (hf : ∀ as, Succeeds (f as) ↔ P) :
    Succeeds (do
        let items ← members.optionalItems path name
        let as ← readItems path' items read
        f as) ↔
      members.MayHave name (IsArrayOf form) ∧ P := by
  rw [← bind_assoc, succeeds_bind_and_iff hf, Members.succeeds_items_iff hread]

end Items

end Json

theorem Declaration.Kind.ofName?_eq_some_iff {word : String}
    {kind : Declaration.Kind} : Declaration.Kind.ofName? word = some kind ↔ word = kind.name := by
  constructor
  · intro h
    simpa [eq_comm] using List.find?_some h
  · rintro rfl
    exact Declaration.Kind.ofName?_name kind

/-- The words for kinds are those of the grammar. -/
theorem Declaration.Kind.name_mem_names (kind : Declaration.Kind) :
    kind.name ∈ ["module", "class", "enum", "typealias"] := by
  cases kind <;> decide

theorem Declaration.Kind.exists_name_eq {word : String}
    (h : word ∈ ["module", "class", "enum", "typealias"]) :
    ∃ kind : Declaration.Kind, kind.name = word := by
  simp only [List.mem_cons, List.not_mem_nil, or_false] at h
  rcases h with rfl | rfl | rfl | rfl
  · exact ⟨.moduleClass, rfl⟩
  · exact ⟨.ordinaryClass, rfl⟩
  · exact ⟨.enumeration, rfl⟩
  · exact ⟨.typeAlias, rfl⟩

section KindWords

variable {kind : Declaration.Kind}

theorem Declaration.Kind.name_mem_classes_iff :
    kind.name ∈ ["module", "class"] ↔ kind.mayInherit = true := by
  cases kind <;> decide

theorem Declaration.Kind.name_eq_typealias_iff : kind.name = "typealias" ↔ kind = .typeAlias := by
  cases kind <;> decide

theorem Declaration.Kind.name_mem_others_iff :
    kind.name ∈ ["module", "class", "enum"] ↔ kind ≠ .typeAlias := by
  cases kind <;> decide

/-- What the grammar says of the kind, once the kind is known. -/
theorem Json.Members.has_kind_iff {members : Members}
    (h : members.get? "kind" = some (.string kind.name)) {words : List String} :
    members.Has "kind" (Json.IsWord words) ↔ kind.name ∈ words := by
  simp [Members.Has, Json.IsWord, h]

end KindWords

namespace Reflection

variable {file : String} {path : Path} {members : Members} {json : Json}

theorem succeeds_location_iff :
    Succeeds (location file path members) ↔ members.MayHave "location" Json.IsLocation := by
  rw [location, Members.MayHave]
  cases members.get? "location" with
  | none => simp
  | some json =>
      simp only [Option.some.injEq, forall_eq']
      refine Json.succeeds_requireMembers_iff fun fields => ?_
      rw [succeeds_bind_and_iff fun _ => succeeds_bind_pure_iff,
        Members.succeeds_optionalPosition_iff, Members.succeeds_optionalPosition_iff]
      exact ⟨fun ⟨hline, hcolumn⟩ => ⟨hline, hcolumn⟩, fun h => ⟨h.line, h.column⟩⟩

/-! ## Types -/

section TypeParts

variable {read : Path → Json → Decoded PklType} {isPart : Json → Prop}
    (hread : ∀ path json, Succeeds (read path json) ↔ isPart json) {name : String}

include hread

theorem succeeds_typePart_iff :
    Succeeds (typePart read path members name) ↔ members.Has name isPart := by
  rw [typePart, Members.Has]
  cases members.get? name with
  | none => simp
  | some json => simp [hread]

theorem succeeds_typeParts_iff :
    Succeeds (typeParts read path members name) ↔
      members.MayHave name (Json.IsArrayOf isPart) :=
  Members.succeeds_items_iff hread

end TypeParts

theorem succeeds_primitive_iff {l : Location} :
    Succeeds (do
        let name ← members.requireString path "name"
        match Primitive.ofName? name with
        | none => (path.member "name").fail (.unknownPrimitive name)
        | some type => return PklType.primitive l type) ↔
      members.Has "name" (Json.IsWord (Primitive.names.map Prod.fst)) := by
  have hknown : ∀ name, Succeeds (match Primitive.ofName? name with
        | none => (path.member "name").fail (.unknownPrimitive name)
        | some type => return PklType.primitive l type) ↔
      name ∈ Primitive.names.map Prod.fst := by
    intro name
    have hsome : (Primitive.ofName? name).isSome ↔ name ∈ Primitive.names.map Prod.fst := by
      rw [Primitive.ofName?, List.lookup_isSome_iff, List.mem_map]
      exact exists_congr fun _ => and_congr_right fun _ => by rw [beq_iff_eq, eq_comm]
    rw [← hsome]
    cases Primitive.ofName? name <;> simp
  rw [succeeds_bind_iff]
  simp only [Members.requireString_eq_ok_iff, hknown]
  constructor
  · rintro ⟨name, hget, hmem⟩
    exact ⟨_, hget, name, hmem, rfl⟩
  · rintro ⟨_, hget, name, hmem, rfl⟩
    exact ⟨name, hget, hmem⟩

/-- A type of a kind is read when it has the members that its kind asks for. -/
theorem succeeds_typeOfKind_iff {read : Path → Json → Decoded PklType} {isPart : Json → Prop}
    (hread : ∀ path json, Succeeds (read path json) ↔ isPart json) {kind : String}
    (hkind : members.get? "kind" = some (.string kind)) {l : Location} :
    Succeeds (typeOfKind read path members l kind) ↔ Json.TypeForm isPart members := by
  have hword : ∀ word, members.Has "kind" (Json.IsWord [word]) ↔ kind = word := by
    simp [Members.Has, Json.IsWord, hkind]
  constructor
  · intro h
    rw [typeOfKind.eq_def] at h
    split at h
    · exact .primitive ((hword _).2 rfl) (succeeds_primitive_iff.1 h)
    · rw [succeeds_bind_pure_iff, succeeds_typePart_iff hread] at h
      exact .nullable ((hword _).2 rfl) h
    · rw [succeeds_bind_pure_iff, succeeds_typeParts_iff hread] at h
      exact .union ((hword _).2 rfl) h
    · rw [succeeds_bind_pure_iff, Members.succeeds_requireString_iff] at h
      exact .declared ((hword _).2 rfl) h
    · rw [succeeds_bind_pure_iff, Members.succeeds_requireString_iff] at h
      exact .literal ((hword _).2 rfl) h
    · rw [succeeds_bind_and_iff fun _ => succeeds_bind_pure_iff, succeeds_typePart_iff hread,
        succeeds_typeParts_iff hread] at h
      exact .generic ((hword _).2 rfl) h.1 h.2
    · rw [succeeds_bind_and_iff fun _ => succeeds_bind_pure_iff, succeeds_typeParts_iff hread,
        succeeds_typePart_iff hread] at h
      exact .function ((hword _).2 rfl) h.1 h.2
    · rw [succeeds_bind_pure_iff, Members.succeeds_requireString_iff] at h
      exact .unsupported ((hword _).2 rfl) h
    · exact absurd h (not_succeeds_fail _ _)
  · rintro (⟨hk, hname⟩ | ⟨hk, hinner⟩ | ⟨hk, hparts⟩ | ⟨hk, href⟩ | ⟨hk, hvalue⟩ |
      ⟨hk, hbase, harguments⟩ | ⟨hk, hparameters, hresult⟩ | ⟨hk, hdisplay⟩)
    all_goals obtain rfl := (hword _).1 hk
    · exact succeeds_primitive_iff.2 hname
    · exact succeeds_bind_pure_iff.2 ((succeeds_typePart_iff hread).2 hinner)
    · exact succeeds_bind_pure_iff.2 ((succeeds_typeParts_iff hread).2 hparts)
    · exact succeeds_bind_pure_iff.2 (Members.succeeds_requireString_iff.2 href)
    · exact succeeds_bind_pure_iff.2 (Members.succeeds_requireString_iff.2 hvalue)
    · refine (succeeds_bind_and_iff fun _ => succeeds_bind_pure_iff).2 ⟨?_, ?_⟩
      · exact (succeeds_typePart_iff hread).2 hbase
      · exact (succeeds_typeParts_iff hread).2 harguments
    · refine (succeeds_bind_and_iff fun _ => succeeds_bind_pure_iff).2 ⟨?_, ?_⟩
      · exact (succeeds_typeParts_iff hread).2 hparameters
      · exact (succeeds_typePart_iff hread).2 hresult
    · exact succeeds_bind_pure_iff.2 (Members.succeeds_requireString_iff.2 hdisplay)

/-- One level of types, given which parts are read. -/
theorem succeeds_typeWithin_succ_iff {levels : Nat} {isPart : Json → Prop}
    (hparts : ∀ path json, Succeeds (typeWithin file levels path json) ↔ isPart json) :
    Succeeds (typeWithin file (levels + 1) path json) ↔ json.IsObject fun members =>
      members.MayHave "location" Json.IsLocation ∧ Json.TypeForm isPart members := by
  rw [typeWithin]
  refine Json.succeeds_requireMembers_iff fun members => ?_
  rw [succeeds_bind_iff]
  constructor
  · rintro ⟨kind, hkind, h⟩
    rw [Members.requireString_eq_ok_iff] at hkind
    rwa [succeeds_bind_and_iff fun _ => succeeds_typeOfKind_iff hparts hkind,
      succeeds_location_iff] at h
  · rintro ⟨hlocation, hform⟩
    -- A type of whichever kind has a member that says so.
    obtain ⟨kind, hkind⟩ : ∃ kind, members.get? "kind" = some (.string kind) := by
      have hword : ∀ {word}, members.Has "kind" (Json.IsWord [word]) →
          ∃ kind, members.get? "kind" = some (.string kind) := by
        rintro word ⟨_, hget, kind, -, rfl⟩
        exact ⟨kind, hget⟩
      cases hform <;> exact hword (by assumption)
    refine ⟨kind, Members.requireString_eq_ok_iff.2 hkind, ?_⟩
    rw [succeeds_bind_and_iff fun _ => succeeds_typeOfKind_iff hparts hkind,
      succeeds_location_iff]
    exact ⟨hlocation, hform⟩

/-- A type is read with one level more than its parts lie deep. -/
theorem succeeds_typeWithin_iff {depth : Nat} :
    Succeeds (typeWithin file (depth + 1) path json) ↔ json.IsTypeWithin depth := by
  induction depth generalizing path json with
  | zero =>
      refine succeeds_typeWithin_succ_iff fun path json => ?_
      simp [typeWithin]
  | succ depth ih => exact succeeds_typeWithin_succ_iff fun path json => ih

theorem succeeds_type_iff : Succeeds (type file path json) ↔ json.IsType :=
  succeeds_typeWithin_iff

/-! ## Declarations -/

theorem succeeds_property_iff : Succeeds (property file path json) ↔ json.IsProperty := by
  refine Json.succeeds_requireMembers_iff fun members => ?_
  have hrest : ∀ name type, Succeeds (do
      let doc ← members.optionalString path "doc"
      let hidden ← members.optionalFlag path "hidden"
      let location ← location file path members
      return Property.mk name type doc hidden location) ↔
        members.MayHave "doc" (Json.IsNullOr Json.IsText) ∧
          members.MayHave "hidden" Json.IsFlag ∧ members.MayHave "location" Json.IsLocation := by
    intro name type
    rw [succeeds_bind_and_iff fun _ => succeeds_bind_and_iff fun _ => succeeds_bind_pure_iff,
      Members.succeeds_optionalString_iff, Members.succeeds_optionalFlag_iff,
      succeeds_location_iff]
  constructor
  · intro h
    obtain ⟨name, hname, h⟩ := succeeds_bind_iff.1 h
    rw [Members.requireString_eq_ok_iff] at hname
    cases htype : members.get? "type" with
    | none =>
        rw [htype] at h
        exact absurd h (not_succeeds_error _)
    | some json =>
        rw [htype] at h
        obtain ⟨hjson, hdoc, hhidden, hlocation⟩ := (succeeds_bind_and_iff (hrest name)).1 h
        exact ⟨⟨_, hname, name, rfl⟩, ⟨json, htype, succeeds_type_iff.1 hjson⟩, hdoc, hhidden,
          hlocation⟩
  · rintro ⟨⟨_, hname, name, rfl⟩, ⟨json, htype, hjson⟩, hdoc, hhidden, hlocation⟩
    refine succeeds_bind_iff.2 ⟨name, Members.requireString_eq_ok_iff.2 hname, ?_⟩
    rw [htype]
    exact (succeeds_bind_and_iff (hrest name)).2
      ⟨succeeds_type_iff.2 hjson, hdoc, hhidden, hlocation⟩

theorem declarationKind_eq_ok_iff {kind : Declaration.Kind} :
    declarationKind path members = .ok kind ↔
      members.get? "kind" = some (.string kind.name) := by
  rw [declarationKind, bind_eq_ok_iff]
  simp only [Members.requireString_eq_ok_iff]
  constructor
  · rintro ⟨word, hget, h⟩
    cases hkind : Declaration.Kind.ofName? word with
    | none => simp [hkind, Path.fail] at h
    | some kind' =>
        obtain rfl : kind' = kind := by simpa [hkind, pure, Except.pure] using h
        rw [hget, Declaration.Kind.ofName?_eq_some_iff.1 hkind]
  · intro hget
    refine ⟨kind.name, hget, ?_⟩
    rw [Declaration.Kind.ofName?_name]
    rfl

theorem succeeds_superclass_iff {kind : Declaration.Kind} :
    Succeeds (superclass path members kind) ↔
      members.MayHave "superclass" (Json.IsNullOr Json.IsText) ∧
        (members.Has "superclass" Json.IsText → kind.mayInherit = true) := by
  rw [superclass, Members.optionalString, Members.MayHave, Members.Has]
  cases members.get? "superclass" with
  | none => simp [bind, Except.bind]
  | some json =>
      cases json <;>
        simp [bind, Except.bind, Except.map, Json.requireText, Json.string?, Path.fail,
          Json.IsNullOr, Json.IsText]
      cases kind <;> simp [Declaration.Kind.mayInherit]

theorem succeeds_aliasedType_iff {kind : Declaration.Kind} :
    Succeeds (aliasedType file path members kind) ↔
      (kind = .typeAlias → members.Has "aliasedType" Json.IsType) ∧
        (kind ≠ .typeAlias → members.Lacks "aliasedType") := by
  rw [aliasedType.eq_def, Members.Has, Members.Lacks]
  cases members.get? "aliasedType" with
  | none => cases kind <;> simp
  | some json => cases kind <;> simp [succeeds_type_iff]

theorem succeeds_declaration_iff {moduleName : String} :
    Succeeds (declaration moduleName file path json) ↔ json.IsObject fun members =>
      ∃ kind : Declaration.Kind, members.get? "kind" = some (.string kind.name) ∧
        members.Has "name" Json.IsText ∧
        members.MayHave "location" Json.IsLocation ∧
        members.MayHave "doc" (Json.IsNullOr Json.IsText) ∧
        (members.MayHave "superclass" (Json.IsNullOr Json.IsText) ∧
          (members.Has "superclass" Json.IsText → kind.mayInherit = true)) ∧
        members.MayHave "properties" (Json.IsArrayOf Json.IsProperty) ∧
        members.MayHave "values" (Json.IsArrayOf Json.IsText) ∧
        (kind = .typeAlias → members.Has "aliasedType" Json.IsType) ∧
        (kind ≠ .typeAlias → members.Lacks "aliasedType") := by
  have hproperty : ∀ path json, Succeeds (property file path json) ↔ json.IsProperty :=
    fun _ _ => succeeds_property_iff
  have hvalue : ∀ (path : Path) json, Succeeds (Json.requireText path json) ↔ json.IsText :=
    fun _ _ => Json.succeeds_requireText_iff
  refine Json.succeeds_requireMembers_iff fun members => ?_
  rw [succeeds_bind_iff]
  refine exists_congr fun kind => and_congr declarationKind_eq_ok_iff ?_
  refine Iff.trans (succeeds_bind_and_iff fun name => succeeds_bind_and_iff fun location =>
    succeeds_bind_and_iff fun doc => succeeds_bind_and_iff fun superclass =>
      Members.succeeds_items_and_iff hproperty fun properties =>
        Members.succeeds_items_and_iff hvalue fun values => succeeds_bind_pure_iff) ?_
  rw [Members.succeeds_requireString_iff, succeeds_location_iff,
    Members.succeeds_optionalString_iff, succeeds_superclass_iff, succeeds_aliasedType_iff]

theorem succeeds_requestedName_iff :
    Succeeds (requestedName path json) ↔ json.IsObject fun members =>
      members.MayHave "pythonName" (Json.IsNullOr Json.IsText) :=
  Json.succeeds_requireMembers_iff fun _ => Members.succeeds_optionalString_iff

/-- A declaration and the Python name that it asks for are read from a declaration. -/
theorem succeeds_declaration_and_requestedName_iff {moduleName : String} :
    Succeeds (declaration moduleName file path json) ∧ Succeeds (requestedName path json) ↔
      json.IsDeclaration := by
  rw [succeeds_declaration_iff, succeeds_requestedName_iff, Json.isObject_and_isObject_iff]
  refine exists_congr fun members => and_congr_right fun _ => ?_
  constructor
  · rintro ⟨⟨kind, hkind, hname, hlocation, hdoc, ⟨hsuperclass, hinherits⟩, hproperties, hvalues,
      haliased, hlacks⟩, hpythonName⟩
    refine ⟨(Members.has_kind_iff hkind).2 kind.name_mem_names, hname, hlocation, hdoc,
      hsuperclass, fun h => ?_, hproperties, hvalues, fun h => ?_, fun h => ?_, hpythonName⟩
    · rw [Members.has_kind_iff hkind, Declaration.Kind.name_mem_classes_iff]
      exact hinherits h
    · rw [Members.has_kind_iff hkind, List.mem_singleton] at h
      exact haliased (Declaration.Kind.name_eq_typealias_iff.1 h)
    · rw [Members.has_kind_iff hkind, Declaration.Kind.name_mem_others_iff] at h
      exact hlacks h
  · rintro ⟨⟨_, hkind, word, hword, rfl⟩, hname, hlocation, hdoc, hsuperclass, hinherits,
      hproperties, hvalues, haliased, hlacks, hpythonName⟩
    obtain ⟨kind, rfl⟩ := Declaration.Kind.exists_name_eq hword
    refine ⟨⟨kind, hkind, hname, hlocation, hdoc, ⟨hsuperclass, fun h => ?_⟩, hproperties,
      hvalues, fun h => ?_, fun h => ?_⟩, hpythonName⟩
    · rw [← Declaration.Kind.name_mem_classes_iff, ← Members.has_kind_iff hkind]
      exact hinherits h
    · refine haliased ?_
      rw [Members.has_kind_iff hkind, List.mem_singleton]
      exact Declaration.Kind.name_eq_typealias_iff.2 h
    · refine hlacks ?_
      rw [Members.has_kind_iff hkind, Declaration.Kind.name_mem_others_iff]
      exact h

end Reflection

end PklBindings
