import PklBindings.Proofs.SchemaEncoding

/-!
# What is read can be written

Everything that is read from a document is of the form that a document can stand for: types have all
their parts and do not nest too deep, locations stand in the file of their module at positions that
count from one, and type aliases and only they have an aliased type
(`Reflection.representable_of_moduleIn`).
-/

namespace PklBindings.Reflection

open Json (Path Members)

/-! ## Locations -/

theorem optionalPosition_ne_zero {members : Members} {path : Path} {name : String} {n : UInt32}
    (h : members.optionalPosition path name = .ok n) : n ≠ 0 := by
  rw [Members.optionalPosition] at h
  split at h
  · cases h
    decide
  · split at h
    · split at h
      · rename_i i _ hbounds
        cases h
        intro hzero
        have hmod : i.toNat % 0x100000000 = 0 := by
          simpa using congrArg UInt32.toNat hzero
        omega
      · cases h
    · cases h

theorem standsIn_of_location {file : String} {path : Path} {members : Members} {l : Location}
    (h : location file path members = .ok l) : l.StandsIn file := by
  have hfirst : (1 : UInt32) ≠ 0 := by decide
  rw [location] at h
  split at h
  · cases h
    exact ⟨rfl, hfirst, hfirst⟩
  · obtain ⟨fields, -, h⟩ := bind_eq_ok_iff.1 h
    obtain ⟨line, hline, h⟩ := bind_eq_ok_iff.1 h
    obtain ⟨column, hcolumn, h⟩ := bind_eq_ok_iff.1 h
    cases h
    exact ⟨rfl, optionalPosition_ne_zero hline, optionalPosition_ne_zero hcolumn⟩

/-! ## Types -/

section Types

variable {file : String} {n : Nat} {read : Path → Json → Decoded PklType} {path : Path}
  {members : Members} {name : String}

/-- The types that are read stand in the file, and their parts lie less than `n` deep. -/
def ReadsBelow (file : String) (n : Nat) (read : Path → Json → Decoded PklType) : Prop :=
  ∀ {path json e}, read path json = .ok e → e.StandsIn file ∧ e.depth < n

theorem ReadsBelow.typePart (hread : ReadsBelow file n read) {e : PklType}
    (h : typePart read path members name = .ok e) : e.StandsIn file ∧ e.depth < n := by
  rw [Reflection.typePart] at h
  split at h
  · cases h
  · exact hread h

theorem ReadsBelow.typeParts (hread : ReadsBelow file n read) {es : List PklType}
    (h : typeParts read path members name = .ok es) :
    PklType.StandAllIn file es ∧ PklType.depthAll es ≤ n := by
  obtain ⟨items, -, hitems⟩ := bind_eq_ok_iff.1 h
  replace hitems := mapM_eq_ok_iff.1 hitems
  generalize items.zipIdx = places at hitems
  clear h
  induction hitems with
  | nil => exact ⟨trivial, Nat.zero_le n⟩
  | cons hfirst _ ih =>
      obtain ⟨hstands, hdepth⟩ := hread hfirst
      exact ⟨⟨hstands, ih.1⟩, Nat.max_le.2 ⟨hdepth, ih.2⟩⟩

/-- A type is one level deeper than its parts. -/
theorem ReadsBelow.typeOfKind (hread : ReadsBelow file n read) {l : Location}
    (hl : l.StandsIn file) {kind : String} {e : PklType}
    (h : typeOfKind read path members l kind = .ok e) : e.StandsIn file ∧ e.depth ≤ n := by
  unfold Reflection.typeOfKind at h
  split at h
  · -- A built-in type.
    obtain ⟨name, -, h⟩ := bind_eq_ok_iff.1 h
    split at h
    · cases h
    · cases h
      exact ⟨hl, Nat.zero_le n⟩
  · -- A type that may be null.
    obtain ⟨inner, hinner, h⟩ := bind_eq_ok_iff.1 h
    cases h
    obtain ⟨hstands, hdepth⟩ := hread.typePart hinner
    exact ⟨⟨hl, hstands⟩, hdepth⟩
  · -- A union.
    obtain ⟨parts, hparts, h⟩ := bind_eq_ok_iff.1 h
    cases h
    obtain ⟨hstands, hdepth⟩ := hread.typeParts hparts
    exact ⟨⟨hl, hstands⟩, hdepth⟩
  · -- A reference.
    obtain ⟨ref, -, h⟩ := bind_eq_ok_iff.1 h
    cases h
    exact ⟨hl, Nat.zero_le n⟩
  · -- A literal.
    obtain ⟨value, -, h⟩ := bind_eq_ok_iff.1 h
    cases h
    exact ⟨hl, Nat.zero_le n⟩
  · -- A generic type.
    obtain ⟨base, hbase, h⟩ := bind_eq_ok_iff.1 h
    obtain ⟨arguments, harguments, h⟩ := bind_eq_ok_iff.1 h
    cases h
    obtain ⟨hstands, hdepth⟩ := hread.typePart hbase
    obtain ⟨hstandsAll, hdepthAll⟩ := hread.typeParts harguments
    exact ⟨⟨hl, hstands, hstandsAll⟩, Nat.max_le.2 ⟨hdepth, hdepthAll⟩⟩
  · -- A function.
    obtain ⟨parameters, hparameters, h⟩ := bind_eq_ok_iff.1 h
    obtain ⟨result, hresult, h⟩ := bind_eq_ok_iff.1 h
    cases h
    obtain ⟨hstandsAll, hdepthAll⟩ := hread.typeParts hparameters
    obtain ⟨hstands, hdepth⟩ := hread.typePart hresult
    exact ⟨⟨hl, hstandsAll, hstands⟩, Nat.max_le.2 ⟨hdepthAll, hdepth⟩⟩
  · -- A shape without a counterpart.
    obtain ⟨spelling, -, h⟩ := bind_eq_ok_iff.1 h
    cases h
    exact ⟨hl, Nat.zero_le n⟩
  · cases h

theorem readsBelow_typeWithin (file : String) (levels : Nat) :
    ReadsBelow file levels (typeWithin file levels) := by
  induction levels with
  | zero =>
      intro path json e h
      cases h
  | succ levels ih =>
      intro path json e h
      obtain ⟨members, -, h⟩ := bind_eq_ok_iff.1 h
      obtain ⟨kind, -, h⟩ := bind_eq_ok_iff.1 h
      obtain ⟨l, hlocation, h⟩ := bind_eq_ok_iff.1 h
      obtain ⟨hstands, hdepth⟩ := ReadsBelow.typeOfKind ih (standsIn_of_location hlocation) h
      exact ⟨hstands, Nat.lt_succ_of_le hdepth⟩

theorem representable_of_type {json : Json} {e : PklType} (h : type file path json = .ok e) :
    e.Representable file := by
  obtain ⟨hstands, hdepth⟩ := readsBelow_typeWithin file _ h
  exact ⟨hstands, Nat.le_of_lt_succ hdepth⟩

end Types

/-! ## Declarations -/

section Declarations

variable {file : String} {path : Path} {json : Json}

theorem representable_of_property {p : Property} (h : property file path json = .ok p) :
    p.Representable file := by
  obtain ⟨members, -, h⟩ := bind_eq_ok_iff.1 h
  obtain ⟨name, -, h⟩ := bind_eq_ok_iff.1 h
  dsimp only at h
  split at h
  · obtain ⟨e, hnone, -⟩ := bind_eq_ok_iff.1 h
    cases hnone
  · obtain ⟨e, htype, h⟩ := bind_eq_ok_iff.1 h
    obtain ⟨doc, -, h⟩ := bind_eq_ok_iff.1 h
    obtain ⟨hidden, -, h⟩ := bind_eq_ok_iff.1 h
    obtain ⟨l, hlocation, h⟩ := bind_eq_ok_iff.1 h
    cases h
    exact ⟨representable_of_type htype, standsIn_of_location hlocation⟩

/-- Type aliases have an aliased type, and other declarations have none. -/
theorem representable_of_aliasedType {members : Members} {kind : Declaration.Kind} {e : PklType}
    (h : aliasedType file path members kind = .ok e) :
    (kind = .typeAlias → e.Representable file) ∧ (kind ≠ .typeAlias → e = .missing) := by
  unfold aliasedType at h
  split at h
  · cases h
  · exact ⟨fun _ => representable_of_type h, fun hne => absurd rfl hne⟩
  · rename_i hother _
    cases h
    exact ⟨fun hkind => absurd hkind (by simpa using hother), fun _ => rfl⟩
  · cases h

theorem representable_of_declaration {moduleName : String} {d : Declaration}
    (h : declaration moduleName file path json = .ok d) : d.Representable moduleName file := by
  have hinherits := inherits_of_declaration h
  obtain ⟨members, -, h⟩ := bind_eq_ok_iff.1 h
  obtain ⟨kind, -, h⟩ := bind_eq_ok_iff.1 h
  obtain ⟨name, -, h⟩ := bind_eq_ok_iff.1 h
  obtain ⟨l, hlocation, h⟩ := bind_eq_ok_iff.1 h
  obtain ⟨doc, -, h⟩ := bind_eq_ok_iff.1 h
  obtain ⟨parent, -, h⟩ := bind_eq_ok_iff.1 h
  obtain ⟨items, -, h⟩ := bind_eq_ok_iff.1 h
  obtain ⟨properties, hproperties, h⟩ := bind_eq_ok_iff.1 h
  obtain ⟨items, -, h⟩ := bind_eq_ok_iff.1 h
  obtain ⟨values, -, h⟩ := bind_eq_ok_iff.1 h
  obtain ⟨aliased, haliased, h⟩ := bind_eq_ok_iff.1 h
  cases h
  obtain ⟨haliasedType, hnone⟩ := representable_of_aliasedType haliased
  refine ⟨rfl, standsIn_of_location hlocation, hinherits, ?_, haliasedType, hnone⟩
  intro p hp
  obtain ⟨item, -, hread⟩ := exists_mem_zip_of_mem_right (mapM_eq_ok_iff.1 hproperties) hp
  exact representable_of_property hread

end Declarations

/-- Every declaration of a module that is read can be written. -/
theorem representable_of_moduleIn {source : String} {path : Path} {json : Json} {m : Module}
    {s s' : List Binding} (h : (moduleIn source path json).run.run s = (.ok m, s')) :
    ∀ d ∈ m.declarations, d.Representable m.name (m.file source) := by
  intro d hd
  obtain ⟨path, json, hread⟩ := (run_moduleIn_eq_ok h).2.1 d hd
  exact representable_of_declaration hread

end PklBindings.Reflection
