import PklBindings.Proofs.Acceptance

/-!
# Where the faults of documents are

The error of a document that is no schema leads to its fault (`Reflection.error_points_into`). When
something is missing, the way goes on by one member from an object that does not have it. All other
faults are found in the value that the way leads to, and of two bindings with one source, the error
names both. Only a document that is no object gets an error without a way.
-/

namespace PklBindings

open Json (Path Members)

/-! ## Faults and places -/

/-- The message is that something is missing. -/
def Fault.SaysMissing (f : Fault) : Prop :=
  "missing ".toList <+: f.message.toList ∨ f.message = "type alias requires an aliased type"

instance (f : Fault) : Decidable f.SaysMissing :=
  inferInstanceAs (Decidable (_ ∨ _))

/-- What a fault says of the value in which it is found. -/
def Fault.FoundIn : Fault → Json → Prop
  | notObject, json => json.members? = none
  | notString, json => json.string? = none
  | notArray, json => json.items? = none
  | notBoolean, json => json.bool? = none
  | notPosition, json => ¬ json.IsPosition
  | noModules, json => json = .array []
  | unknownDeclarationKind word, json =>
    json = .string word ∧ Declaration.Kind.ofName? word = none
  | unknownTypeKind word, json => json = .string word
  | unknownPrimitive name, json => json = .string name ∧ Primitive.ofName? name = none
  | straySuperclass, json => json.IsText
  | strayAliasedType, _ | tooDeep, _ => True
  | missingString, _ | missingModules, _ | missingPart, _ | missingPropertyType, _
  | missingAliasedType, _ | duplicateBinding _ _, _ => False

/-- The way from the root of the document leads to the fault. -/
inductive ReadError.PointsInto (document : Json) : ReadError → Prop
  /-- The object before the last member does not have this member. -/
  | missing {fault : Fault} {parent : Path} {name : String} {members : Members} :
      fault.SaysMissing → parent.value? document = some (.object members) →
      members.get? name = none → PointsInto document ⟨parent.member name, fault⟩
  /-- The fault is in the value at the end of the way. -/
  | found {fault : Fault} {path : Path} {value : Json} :
      ¬ fault.SaysMissing → path ≠ .root → path.value? document = some value →
      fault.FoundIn value → PointsInto document ⟨path, fault⟩
  /-- The source of a binding is that of an earlier one. -/
  | duplicate {source : String} {i j : Nat} :
      i < j →
      ((Reflection.bindingsPath.item i).member "source").value? document = some (.string source) →
      ((Reflection.bindingsPath.item j).member "source").value? document = some (.string source) →
      PointsInto document ⟨(Reflection.bindingsPath.item j).member "source",
        .duplicateBinding source (Reflection.bindingsPath.item i)⟩

theorem Fault.head?_of_saysMissing {f : Fault} (h : f.SaysMissing) :
    f.message.toList.head? ∈ [some 'm', some 't'] := by
  rcases h with ⟨rest, hrest⟩ | htext
  · rw [← hrest]
    simp
  · rw [htext]
    simp

/-- No fault that is found in a value says that something is missing. -/
theorem Fault.not_saysMissing_of_foundIn {f : Fault} {json : Json} (h : f.FoundIn json) :
    ¬ f.SaysMissing := by
  -- A message with a word of the document in it starts with a word of its own.
  have hquoting {f : Fault} {start word : String} (hmessage : f.message = start ++ word ++ "'")
      (hstart : start.toList.head? = some 'u') : ¬ f.SaysMissing := by
    intro hmissing
    have hhead := head?_of_saysMissing hmissing
    rw [hmessage, String.toList_append, String.toList_append, List.head?_append, List.head?_append,
      hstart] at hhead
    simp at hhead
  cases f with
  | unknownDeclarationKind word => exact hquoting rfl rfl
  | unknownTypeKind word => exact hquoting rfl rfl
  | unknownPrimitive name => exact hquoting rfl rfl
  | notObject | notString | notArray | notBoolean | notPosition | noModules | straySuperclass
  | strayAliasedType | tooDeep => decide
  | missingString | missingModules | missingPart | missingPropertyType | missingAliasedType
  | duplicateBinding source first => exact h.elim

/-! ## Readings -/

/-- The path goes below the root, to a value. -/
structure LeadsTo (document : Json) (path : Path) (value : Json) : Prop where
  ne_root : path ≠ .root
  value?_eq : path.value? document = some value

/-- Every error of the reading leads to its fault. -/
def Points (document : Json) {α : Type} (x : Decoded α) : Prop :=
  ∀ e, x = .error e → e.PointsInto document

section Readings

variable {document json value : Json} {path : Path} {members : Members} {name : String}
  {items : List Json} {α β : Type}

theorem LeadsTo.member (hobject : path.value? document = some (.object members))
    (hget : members.get? name = some value) : LeadsTo document (path.member name) value where
  ne_root := nofun
  value?_eq := by simp [Path.value?, hobject, Json.members?, hget]

theorem LeadsTo.item (harray : path.value? document = some (.array items)) {index : Nat}
    (hget : items[index]? = some value) : LeadsTo document (path.item index) value where
  ne_root := nofun
  value?_eq := by simp [Path.value?, harray, Json.items?, hget]

namespace Points

theorem of_ok (a : α) : Points document (.ok a : Decoded α) :=
  nofun

theorem of_pure (a : α) : Points document (pure a : Decoded α) :=
  nofun

/-- A fault that is found in a value. -/
theorem of_found (h : LeadsTo document path value) {fault : Fault} (hfound : fault.FoundIn value) :
    Points document (path.fail fault : Decoded α) := by
  rintro _ ⟨⟩
  exact .found (Fault.not_saysMissing_of_foundIn hfound) h.ne_root h.value?_eq hfound

/-- A fault over a member that is not there. -/
theorem of_missing (hobject : path.value? document = some (.object members))
    (hget : members.get? name = none) {fault : Fault} (hmissing : fault.SaysMissing) :
    Points document ((path.member name).fail fault : Decoded α) := by
  rintro _ ⟨⟩
  exact .missing hmissing hobject hget

theorem bind {x : Decoded α} {f : α → Decoded β} (hx : Points document x)
    (hf : ∀ a, x = .ok a → Points document (f a)) : Points document (x >>= f) := by
  intro e h
  rcases bind_eq_error_iff.1 h with he | ⟨a, ha, he⟩
  · exact hx e he
  · exact hf a ha e he

theorem map {x : Decoded α} (hx : Points document x) (f : α → β) : Points document (x.map f) := by
  cases x with
  | error e =>
      rintro _ ⟨⟩
      exact hx e rfl
  | ok a => exact of_ok (f a)

/-- Items are read where they stand. -/
theorem readItems {read : Path → Json → Decoded α}
    (hread : ∀ path json, LeadsTo document path json → Points document (read path json))
    (harray : path.value? document = some (.array items)) :
    Points document (Json.readItems path items read) := by
  intro e h
  obtain ⟨place, hplace, he⟩ := exists_mem_of_mapM_eq_error h
  exact hread _ _ (.item harray (List.mem_zipIdx_iff_getElem?.1 hplace)) e he

end Points

/-! ## Members of objects -/

theorem points_requireMembers (h : LeadsTo document path json) :
    Points document (json.requireMembers path) := by
  rw [Json.requireMembers]
  split
  · exact .of_ok _
  · exact .of_found h ‹_›

theorem points_requireText (h : LeadsTo document path json) :
    Points document (json.requireText path) := by
  rw [Json.requireText]
  split
  · exact .of_ok _
  · exact .of_found h ‹_›

/-- What is read of an object is read where its members are. -/
theorem points_requireMembers_bind {read : Members → Decoded α} (h : LeadsTo document path json)
    (hread : ∀ members, path.value? document = some (.object members) →
      Points document (read members)) :
    Points document (json.requireMembers path >>= read) := by
  refine (points_requireMembers h).bind fun members hmembers => hread members ?_
  rw [h.value?_eq, Json.requireMembers_eq_ok_iff.1 hmembers]

section Members

variable (hobject : path.value? document = some (.object members))

include hobject

theorem points_requireString : Points document (members.requireString path name) := by
  rw [Members.requireString]
  split
  · exact .of_missing hobject ‹_› (by decide)
  · exact points_requireText (.member hobject ‹_›)

theorem points_optionalString : Points document (members.optionalString path name) := by
  rw [Members.optionalString]
  split
  · exact .of_ok _
  · exact .of_ok _
  · exact (points_requireText (.member hobject ‹_›)).map some

theorem points_optionalItems : Points document (members.optionalItems path name) := by
  rw [Members.optionalItems]
  split
  · exact .of_ok _
  · split
    · exact .of_ok _
    · exact .of_found (.member hobject ‹_›) ‹_›

/-- The items that are read stand in an array, or the array was left out. -/
theorem leadsTo_of_optionalItems (h : members.optionalItems path name = .ok items) :
    LeadsTo document (path.member name) (.array items) ∨ items = [] := by
  rcases Json.Members.optionalItems_eq_ok_iff.1 h with hget | ⟨-, hnil⟩
  · exact Or.inl (.member hobject hget)
  · exact Or.inr hnil

theorem points_optionalFlag : Points document (members.optionalFlag path name) := by
  rw [Members.optionalFlag]
  split
  · exact .of_ok _
  · split
    · exact .of_ok _
    · exact .of_found (.member hobject ‹_›) ‹_›

theorem points_optionalPosition : Points document (members.optionalPosition path name) := by
  rw [Members.optionalPosition]
  split
  · exact .of_ok _
  · rename_i json hget
    have hplace : LeadsTo document (path.member name) json := .member hobject hget
    split
    · rename_i n hn
      split
      · exact .of_ok _
      · rename_i hbounds
        refine .of_found hplace ?_
        rintro ⟨m, hm, hone, hmax⟩
        rw [hn, Option.some.injEq] at hm
        exact hbounds (hm ▸ ⟨hone, hmax⟩)
    · rename_i hnone
      refine .of_found hplace ?_
      rintro ⟨m, hm, -⟩
      rw [hnone] at hm
      cases hm

/-- An array that may be left out is read item by item. -/
theorem points_items {read : Path → Json → Decoded α}
    (hread : ∀ path json, LeadsTo document path json → Points document (read path json))
    {f : List α → Decoded β} (hf : ∀ as, Points document (f as)) :
    Points document (do
      let items ← members.optionalItems path name
      let as ← Json.readItems (path.member name) items read
      f as) := by
  refine (points_optionalItems hobject).bind fun items hitems => .bind ?_ fun as _ => hf as
  rcases leadsTo_of_optionalItems hobject hitems with hplace | rfl
  · exact .readItems hread hplace.value?_eq
  · exact .of_ok _

end Members

namespace Reflection

/-! ## Types -/

theorem points_location {file : String} (hobject : path.value? document = some (.object members)) :
    Points document (location file path members) := by
  rw [location]
  split
  · exact .of_ok _
  · refine points_requireMembers_bind (.member hobject ‹_›) fun members hmembers => ?_
    refine (points_optionalPosition hmembers).bind fun line _ => ?_
    exact (points_optionalPosition hmembers).bind fun column _ => .of_pure _

section TypeParts

variable {read : Path → Json → Decoded PklType}
    (hread : ∀ path json, LeadsTo document path json → Points document (read path json))
    (hobject : path.value? document = some (.object members))

include hread hobject

theorem points_typePart : Points document (typePart read path members name) := by
  rw [typePart]
  split
  · exact .of_missing hobject ‹_› (by decide)
  · exact hread _ _ (.member hobject ‹_›)

theorem points_typeParts : Points document (typeParts read path members name) := by
  have h : Points document (members.optionalItems path name >>= fun items =>
      Json.readItems (path.member name) items read >>= pure) :=
    points_items hobject hread Points.of_pure
  simpa only [typeParts, bind_pure] using h

theorem points_typeOfKind {l : Location} {kind : String}
    (hkind : members.get? "kind" = some (.string kind)) :
    Points document (typeOfKind read path members l kind) := by
  rw [typeOfKind.eq_def]
  split
  · refine (points_requireString hobject).bind fun name hname => ?_
    rw [Members.requireString_eq_ok_iff] at hname
    split
    · exact .of_found (.member hobject hname) ⟨rfl, ‹_›⟩
    · exact .of_pure _
  · exact (points_typePart hread hobject).bind fun _ _ => .of_pure _
  · exact (points_typeParts hread hobject).bind fun _ _ => .of_pure _
  · exact (points_requireString hobject).bind fun _ _ => .of_pure _
  · exact (points_requireString hobject).bind fun _ _ => .of_pure _
  · refine (points_typePart hread hobject).bind fun _ _ => ?_
    exact (points_typeParts hread hobject).bind fun _ _ => .of_pure _
  · refine (points_typeParts hread hobject).bind fun _ _ => ?_
    exact (points_typePart hread hobject).bind fun _ _ => .of_pure _
  · exact (points_requireString hobject).bind fun _ _ => .of_pure _
  · exact .of_found (.member hobject hkind) rfl

end TypeParts

/-- The induction is on the levels that are left: a part has one less. -/
theorem points_typeWithin {file : String} (levels : Nat) (path : Path) (json : Json)
    (h : LeadsTo document path json) : Points document (typeWithin file levels path json) := by
  induction levels generalizing path json with
  | zero => exact .of_found h trivial
  | succ levels ih =>
      rw [typeWithin]
      refine points_requireMembers_bind h fun members hmembers => ?_
      refine (points_requireString hmembers).bind fun kind hkind => ?_
      refine (points_location hmembers).bind fun l _ => ?_
      exact points_typeOfKind ih hmembers (Members.requireString_eq_ok_iff.1 hkind)

theorem points_type {file : String} (h : LeadsTo document path json) :
    Points document (type file path json) :=
  points_typeWithin _ _ _ h

/-! ## Declarations -/

theorem points_property {file : String} (path : Path) (json : Json)
    (h : LeadsTo document path json) : Points document (property file path json) := by
  refine points_requireMembers_bind h fun (members : Members) hmembers => ?_
  refine (points_requireString hmembers).bind fun name _ => ?_
  have hrest (type : PklType) : Points document (do
      let doc ← members.optionalString path "doc"
      let hidden ← members.optionalFlag path "hidden"
      let location ← location file path members
      return Property.mk name type doc hidden location) := by
    refine (points_optionalString hmembers).bind fun doc _ => ?_
    refine (points_optionalFlag hmembers).bind fun hidden _ => ?_
    exact (points_location hmembers).bind fun l _ => .of_pure _
  dsimp only
  split
  · exact (Points.of_missing hmembers ‹_› (by decide)).bind fun type _ => hrest type
  · exact (points_type (.member hmembers ‹_›)).bind fun type _ => hrest type

theorem points_declarationKind (hobject : path.value? document = some (.object members)) :
    Points document (declarationKind path members) := by
  refine (points_requireString hobject).bind fun word hword => ?_
  rw [Members.requireString_eq_ok_iff] at hword
  split
  · exact .of_found (.member hobject hword) ⟨rfl, ‹_›⟩
  · exact .of_pure _

theorem points_superclass (hobject : path.value? document = some (.object members))
    (kind : Declaration.Kind) : Points document (superclass path members kind) := by
  refine (points_optionalString hobject).bind fun ref href => ?_
  split
  · -- The superclass that should not be there is a text.
    rename_i hstray
    obtain ⟨parent, rfl⟩ := Option.isSome_iff_exists.1 (Bool.and_eq_true_iff.1 hstray).1
    obtain ⟨value, hget, htext⟩ :=
      Option.bind_eq_some_iff.1 (Members.string?_of_optionalString href)
    refine .of_found (.member hobject hget) ?_
    cases value <;> cases htext
    exact ⟨parent, rfl⟩
  · exact .of_pure _

theorem points_aliasedType {file : String}
    (hobject : path.value? document = some (.object members)) (kind : Declaration.Kind) :
    Points document (aliasedType file path members kind) := by
  rw [aliasedType.eq_def]
  split
  · exact .of_missing hobject ‹_› (by decide)
  · exact points_type (.member hobject ‹_›)
  · exact .of_ok _
  · exact .of_found (.member hobject ‹_›) trivial

theorem points_declaration {moduleName file : String} (h : LeadsTo document path json) :
    Points document (declaration moduleName file path json) := by
  refine points_requireMembers_bind h fun members hmembers => ?_
  refine (points_declarationKind hmembers).bind fun kind _ => ?_
  refine (points_requireString hmembers).bind fun name _ => ?_
  refine (points_location hmembers).bind fun l _ => ?_
  refine (points_optionalString hmembers).bind fun doc _ => ?_
  refine (points_superclass hmembers kind).bind fun parent _ => ?_
  refine points_items hmembers points_property fun properties => ?_
  refine points_items hmembers (fun _ _ => points_requireText) fun values => ?_
  exact (points_aliasedType hmembers kind).bind fun aliased _ => .of_pure _

theorem points_requestedName (h : LeadsTo document path json) :
    Points document (requestedName path json) :=
  points_requireMembers_bind h fun _ hmembers => points_optionalString hmembers

/-! ## Bindings -/

theorem points_binding {source : String} (h : LeadsTo document path json) :
    Points document (binding source path json) := by
  refine points_requireMembers_bind h fun members hmembers => ?_
  refine (points_declarationKind hmembers).bind fun kind _ => ?_
  refine (points_requireString hmembers).bind fun qualifiedName _ => ?_
  refine (points_requireString hmembers).bind fun space _ => ?_
  refine (points_requireString hmembers).bind fun name _ => ?_
  exact (points_location hmembers).bind fun l _ => .of_pure _

/-- The source of a binding that is read stands in its object. -/
theorem value?_source_of_binding {source : String} {b : Binding}
    (hplace : path.value? document = some json) (h : binding source path json = .ok b) :
    (path.member "source").value? document = some (.string b.source) := by
  obtain ⟨members, hmembers, h⟩ := bind_eq_ok_iff.1 h
  obtain ⟨kind, -, h⟩ := bind_eq_ok_iff.1 h
  obtain ⟨qualifiedName, hsource, h⟩ := bind_eq_ok_iff.1 h
  obtain ⟨space, -, h⟩ := bind_eq_ok_iff.1 h
  obtain ⟨name, -, h⟩ := bind_eq_ok_iff.1 h
  obtain ⟨l, -, h⟩ := bind_eq_ok_iff.1 h
  cases h
  rw [Json.requireMembers_eq_ok_iff.1 hmembers] at hplace
  exact (LeadsTo.member hplace (Members.requireString_eq_ok_iff.1 hsource)).value?_eq

/-- The sources of the bindings read so far stand where these were read. -/
theorem points_bindingsFrom {source : String} (done : List Json) {rest : List Json}
    {earlier : List Binding}
    (harray : bindingsPath.value? document = some (.array (done ++ rest)))
    (hlength : earlier.length = done.length)
    (hearlier : ∀ i b, earlier[i]? = some b →
      ((bindingsPath.item i).member "source").value? document = some (.string b.source)) :
    Points document (bindingsFrom source earlier rest) := by
  induction rest generalizing done earlier with
  | nil => exact .of_ok _
  | cons json rest ih =>
      have hplace : LeadsTo document (bindingsPath.item earlier.length) json :=
        .item harray (by simp [hlength])
      rw [bindingsFrom]
      refine (points_binding hplace).bind fun b hb => ?_
      have hsource := value?_source_of_binding hplace.value?_eq hb
      split
      · rename_i first hfirst
        obtain ⟨hlt, hsame, -⟩ := List.findIdx?_eq_some_iff_getElem.1 hfirst
        rintro _ ⟨⟩
        refine .duplicate hlt ?_ hsource
        rw [hearlier first _ (List.getElem?_eq_getElem hlt), of_decide_eq_true hsame]
      · refine .bind (ih (done ++ [json]) (by simpa using harray) (by simp [hlength]) ?_)
          fun bindings _ => .of_pure _
        intro i c hc
        -- Of the bindings read by now, only the last one is new.
        rcases Nat.lt_trichotomy i earlier.length with hlt | rfl | hgt
        · exact hearlier i c (by rwa [List.getElem?_append_left hlt] at hc)
        · rw [List.getElem?_concat_length, Option.some.injEq] at hc
          rwa [← hc]
        · rw [List.getElem?_eq_none (by simpa [Nat.succ_le_iff] using hgt)] at hc
          cases hc

/-! ## Sessions -/

/-- Whatever the session holds, every error of the reading leads to its fault. -/
def SessionPoints (document : Json) {α : Type} (x : Session α) : Prop :=
  ∀ s, Points document (x.run.run s).1

namespace SessionPoints

theorem of_pure (a : α) : SessionPoints document (pure a : Session α) :=
  fun _ => .of_ok a

theorem of_modify (f : List Binding → List Binding) :
    SessionPoints document (modify f : Session Unit) :=
  fun _ => .of_ok ()

theorem bind {x : Session α} {f : α → Session β} (hx : SessionPoints document x)
    (hf : ∀ a, SessionPoints document (f a)) : SessionPoints document (x >>= f) := by
  intro s
  have hxs := hx s
  rw [run_bind]
  generalize x.run.run s = run at hxs ⊢
  obtain ⟨result, s'⟩ := run
  cases result with
  | error e =>
      rintro _ ⟨⟩
      exact hxs e rfl
  | ok a => exact hf a s'

/-- What is read first may be asked for. -/
theorem liftExcept_bind {x : Decoded α} {f : α → Session β} (hx : Points document x)
    (hf : ∀ a, x = .ok a → SessionPoints document (f a)) :
    SessionPoints document (liftExcept x >>= f) := by
  intro s
  rw [run_bind, run_liftExcept]
  cases x with
  | error e =>
      rintro _ ⟨⟩
      exact hx e rfl
  | ok a => exact hf a rfl s

theorem readItems {read : Path → Json → Session α}
    (hread : ∀ path json, LeadsTo document path json → SessionPoints document (read path json))
    (harray : path.value? document = some (.array items)) :
    SessionPoints document (Json.readItems path items read) := by
  have hplaces : ∀ place ∈ items.zipIdx,
      SessionPoints document (read (path.item place.2) place.1) := fun place hplace =>
    hread _ _ (.item harray (List.mem_zipIdx_iff_getElem?.1 hplace))
  rw [Json.readItems]
  generalize items.zipIdx = places at hplaces
  induction places with
  | nil => exact of_pure []
  | cons place places ih =>
      rw [List.forall_mem_cons] at hplaces
      rw [List.mapM_cons]
      refine hplaces.1.bind fun a => ?_
      exact (ih hplaces.2).bind fun others => of_pure _

end SessionPoints

theorem declarationIn_points {moduleName file space : String} (path : Path) (json : Json)
    (h : LeadsTo document path json) :
    SessionPoints document (declarationIn moduleName file space path json) := by
  refine .liftExcept_bind (points_declaration h) fun d _ => ?_
  refine .liftExcept_bind (points_requestedName h) fun requested _ => ?_
  exact (SessionPoints.of_modify _).bind fun _ => .of_pure d

theorem points_moduleHead (hobject : path.value? document = some (.object members)) :
    Points document (moduleHead path members) := by
  refine (points_requireString hobject).bind fun name _ => ?_
  refine (points_optionalString hobject).bind fun uri _ => ?_
  exact (points_optionalString hobject).bind fun space _ => .of_pure _

theorem moduleIn_points {source : String} (path : Path) (json : Json)
    (h : LeadsTo document path json) : SessionPoints document (moduleIn source path json) := by
  refine .liftExcept_bind (points_requireMembers h) fun members hmembers => ?_
  have hobject : path.value? document = some (.object members) := by
    rw [h.value?_eq, Json.requireMembers_eq_ok_iff.1 hmembers]
  refine .liftExcept_bind (points_moduleHead hobject) fun head _ => ?_
  refine .liftExcept_bind (points_optionalItems hobject) fun items hitems => ?_
  refine SessionPoints.bind ?_ fun declarations => .of_pure _
  rcases leadsTo_of_optionalItems hobject hitems with hplace | rfl
  · exact .readItems declarationIn_points hplace.value?_eq
  · exact .of_pure []

theorem points_moduleItems : Points (.object members) (moduleItems members) := by
  have hobject : Path.root.value? (.object members) = some (.object members) := rfl
  rw [moduleItems]
  split
  · exact .of_missing hobject ‹_› (by decide)
  · rename_i json hget
    have hplace : LeadsTo (.object members) (.member .root "modules") json := .member hobject hget
    split
    · exact .of_found hplace ‹_›
    · rename_i hitems
      refine .of_found hplace ?_
      cases json <;> cases hitems
      rfl
    · exact .of_ok _

/-- Once the document is an object, all errors lead to their faults. -/
theorem schema_points {source : String} :
    SessionPoints (.object members) (Reflection.schema source (.object members)) := by
  have hobject : Path.root.value? (.object members) = some (.object members) := rfl
  have hmembers : Json.requireMembers .root (.object members) = .ok members := rfl
  refine SessionPoints.bind (fun _ => .of_ok ()) fun _ => ?_
  rw [hmembers]
  refine .liftExcept_bind (.of_ok members) fun members' hmembers' => ?_
  cases hmembers'
  refine .liftExcept_bind points_moduleItems fun items hitems => ?_
  have harray := LeadsTo.member hobject (moduleItems_eq_ok_iff.1 hitems).1
  refine (SessionPoints.readItems moduleIn_points harray.value?_eq).bind fun modules => ?_
  split
  · exact SessionPoints.bind (fun _ => .of_ok _) fun derived => .of_pure _
  · refine .liftExcept_bind (points_optionalItems hobject) fun given hgiven => ?_
    refine .liftExcept_bind ?_ fun bindings _ => ?_
    · rcases leadsTo_of_optionalItems hobject hgiven with hplace | rfl
      · exact points_bindingsFrom [] hplace.value?_eq rfl nofun
      · exact .of_ok _
    · exact SessionPoints.bind (fun _ => .of_ok ()) fun _ => .of_pure _

end Reflection

end Readings

/-! ## Errors in words -/

theorem ReadError.PointsInto.path_ne_root {document : Json} {e : ReadError}
    (h : e.PointsInto document) : e.path ≠ .root := by
  cases h with
  | missing => nofun
  | found _ hne => exact hne
  | duplicate => nofun

/-- The way to the fault stands before the fault. -/
theorem ReadError.message_of_path_ne_root {e : ReadError} (h : e.path ≠ .root) (source : String) :
    e.message source =
      Text.untilNul source ++ ": " ++ (e.path.render ++ ": ") ++ Text.untilNul e.fault.message := by
  obtain ⟨path, fault⟩ := e
  cases path with
  | root => exact (h rfl).elim
  | member parent name => rfl
  | item parent index => rfl

namespace Reflection

theorem run_schema_of_members?_eq_none {source : String} {json : Json}
    (h : json.members? = none) (s : List Binding) :
    ((schema source json).run.run s).1 = .error ⟨.root, .notObject⟩ := by
  have hrequire : json.requireMembers .root = .error ⟨.root, .notObject⟩ := by
    rw [Json.requireMembers, h]
    rfl
  rw [schema, run_bind]
  show ((liftExcept (json.requireMembers .root) >>= _ : Session Schema).run.run []).1 = _
  rw [run_bind, run_liftExcept, hrequire]

/-- A document that is no schema is no object, and then the error shows no way, or the error shows
the way to a fault. What is missing is missing from an object at the end of all but the last member
of the way, every other fault is in the value at its end, and of the bindings with one source the
error shows the later one and an earlier one. -/
theorem error_points_into {source : String} {json : Json} {s s' : List Binding} {e : ReadError}
    (h : (schema source json).run.run s = (.error e, s')) :
    (json.members? = none ∧ e.path = .root ∧
      e.message source = Text.untilNul source ++ ": " ++ "expected an object") ∨
    ((∃ members, json = .object members) ∧ e.PointsInto json ∧
      e.message source =
        Text.untilNul source ++ ": " ++ (e.path.render ++ ": ") ++
          Text.untilNul e.fault.message) := by
  have hresult : ((schema source json).run.run s).1 = .error e := by rw [h]
  -- The root itself is at fault only if it is no object.
  by_cases hobject : json.members? = none
  · rw [run_schema_of_members?_eq_none hobject, Except.error.injEq] at hresult
    subst hresult
    have hwords : Text.untilNul Fault.notObject.message = "expected an object" := by decide
    exact Or.inl ⟨hobject, rfl, by rw [ReadError.message, hwords, String.append_empty]⟩
  · cases json with
    | object members =>
        have hpoints : e.PointsInto (.object members) := schema_points s e hresult
        exact Or.inr ⟨⟨members, rfl⟩, hpoints,
          ReadError.message_of_path_ne_root hpoints.path_ne_root source⟩
    | null | bool | number | string | array => exact (hobject rfl).elim

/-- A property with a union type; the second part of the union may be null, but it is not said what
it is otherwise. -/
def hollowDocument : Json :=
  .object [("modules", .array [.object [("name", .string "m"), ("declarations", .array [
    .object [("kind", .string "module"), ("name", .string "M")],
    .object [("kind", .string "class"), ("name", .string "A"), ("properties", .array [
      .object [("name", .string "p"), ("type", .object [("kind", .string "union"),
        ("members", .array [
          .object [("kind", .string "primitive"), ("name", .string "Int")],
          .object [("kind", .string "nullable")]])])]])]])]])]

/-- A document with three bindings, of which the first and the last one have the same source. -/
def rivalDocument : Json :=
  let binding (source name : String) : Json := .object [("kind", .string "class"),
    ("source", .string source), ("namespace", .string "m"), ("name", .string name)]
  .object [("modules", .array [.object [("name", .string "m")]]),
    ("mappings", .array [binding "m#A" "A", binding "m#B" "B", binding "m#A" "C"])]

theorem error_points_into_documents :
    (∃ e, ((schema "s" hollowDocument).run.run []).1 = .error e ∧ e.PointsInto hollowDocument ∧
      e.message "s" = "s: modules[0].declarations[1].properties[0].type.members[1].inner: " ++
        "missing nested type") ∧
    (∃ e, ((schema "s" rivalDocument).run.run []).1 = .error e ∧ e.PointsInto rivalDocument ∧
      e.message "s" =
        "s: mappings[2].source: duplicate mapping for 'm#A' (first declared at mappings[0])") ∧
    ∃ e, ((schema "s" .null).run.run []).1 = .error e ∧
      e.message "s" = "s: expected an object" := by
  refine ⟨?_, ?_, ?_⟩
  · rcases @error_points_into "s" hollowDocument [] _ _ rfl with
      ⟨hnone, -⟩ | ⟨-, hpoints, hmessage⟩
    · cases hnone
    · exact ⟨_, rfl, hpoints, hmessage.trans (by decide)⟩
  · rcases @error_points_into "s" rivalDocument [] _ _ rfl with
      ⟨hnone, -⟩ | ⟨-, hpoints, hmessage⟩
    · cases hnone
    · exact ⟨_, rfl, hpoints, hmessage.trans (by decide)⟩
  · rcases @error_points_into "s" .null [] _ _ rfl with
      ⟨-, -, hmessage⟩ | ⟨⟨_, hobject⟩, -⟩
    · exact ⟨_, rfl, hmessage.trans (by decide)⟩
    · cases hobject

end Reflection

end PklBindings
