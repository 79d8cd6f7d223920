import PklBindings.Proofs.ReadSchema

/-!
# Documents read in one session

While a document is read, the session gathers the default bindings of its declarations. If the
document is accepted, none of them stay behind: they are its table, or have given way to the
bindings of the document (`Reflection.left_of_accepted`). If it is refused, all that was gathered
before the fault stays (`Reflection.left_of_refused`). The next reading starts over and never sees
these remains (`Reflection.run_schema_of_held`), so the documents of a session are read as each is
on its own (`Schema.ofDocuments_eq_map`).
-/

namespace PklBindings

namespace Reflection

variable {source : String} {json : Json} {held left : List Binding}

/-- The bindings that the modules of a document gather, up to the first fault in them. A document
without modules gathers none. -/
def gathered (source : String) (json : Json) : List Binding :=
  match json.requireMembers .root >>= moduleItems with
  | .error _ => []
  | .ok items => ((Json.readItems (.member .root "modules") items (moduleIn source)).run.run []).2

theorem gathered_eq {members : Json.Members} {items : List Json}
    (hobject : json.requireMembers .root = .ok members) (hitems : moduleItems members = .ok items) :
    gathered source json =
      ((Json.readItems (.member .root "modules") items (moduleIn source)).run.run []).2 := by
  rw [gathered, bind_eq_ok_iff.2 ⟨members, hobject, hitems⟩]

/-- An accepted document leaves nothing. What it has gathered is its table, unless it gives
bindings itself. -/
theorem left_of_accepted {read : Schema}
    (h : (schema source json).run.run held = (.ok read, left)) :
    left = [] ∧ (WithoutBindings json → read.bindings.entries = gathered source json) := by
  obtain ⟨members, items, t, rfl, hitems, hmodules, hderived, -, hleft⟩ :=
    exists_modules_of_schema h
  refine ⟨hleft, ?_⟩
  intro hwithout
  rw [gathered_eq rfl hitems, hmodules, hderived hwithout]

/-- A refused document leaves what it has gathered, wherever its fault is. -/
theorem left_of_refused {e : ReadError}
    (h : (schema source json).run.run held = (.error e, left)) : left = gathered source json := by
  obtain hstart | ⟨_, t, hstart, h⟩ := run_bind_eq_error_iff.1 h
  · cases hstart
  cases hstart
  -- The document is no object, or has no modules: nothing is gathered.
  obtain hmembers | ⟨members, t, hmembers, h⟩ := run_bind_eq_error_iff.1 h
  · obtain ⟨hobject, rfl⟩ := run_liftExcept_eq_error_iff.1 hmembers
    rw [gathered, hobject]
    rfl
  obtain ⟨hobject, rfl⟩ := run_liftExcept_eq_ok_iff.1 hmembers
  obtain hitems | ⟨items, t, hitems, h⟩ := run_bind_eq_error_iff.1 h
  · obtain ⟨hread, rfl⟩ := run_liftExcept_eq_error_iff.1 hitems
    rw [gathered, bind_eq_error_iff.2 (.inr ⟨members, hobject, hread⟩)]
  obtain ⟨hread, rfl⟩ := run_liftExcept_eq_ok_iff.1 hitems
  rw [gathered_eq hobject hread]
  -- The fault is in the modules, or in the bindings behind them, which gather nothing.
  obtain hmodules | ⟨modules, t, hmodules, h⟩ := run_bind_eq_error_iff.1 h
  · rw [hmodules]
  rw [hmodules]
  split at h
  · cases h
  · obtain hgiven | ⟨given, t', hgiven, h⟩ := run_bind_eq_error_iff.1 h
    · exact (run_liftExcept_eq_error_iff.1 hgiven).2.symm
    obtain ⟨-, rfl⟩ := run_liftExcept_eq_ok_iff.1 hgiven
    obtain hbindings | ⟨bindings, t', -, h⟩ := run_bind_eq_error_iff.1 h
    · exact (run_liftExcept_eq_error_iff.1 hbindings).2.symm
    · cases h

-- A class stays behind when the bindings of its document are no array.
example : sources (gathered "s" (.object [
    ("modules", .array [.object [("name", .string "m"), ("declarations", .array [
      .object [("kind", .string "class"), ("name", .string "C")]])]]),
    ("mappings", .null)])) = ["m#C"] := by decide

/-- A reading starts over: neither what it gives nor what it leaves depends on what the session
holds. -/
theorem run_schema_of_held (source : String) (json : Json) (held : List Binding) :
    (schema source json).run.run held = (schema source json).run.run [] := by
  rw [schema, run_bind, run_bind]
  rfl

/-- Whatever the session holds at first, each of the documents read in it gives what it gives in a
session of its own. -/
theorem run_schemas (source : String) (documents : List Json) (held : List Binding) :
    ((documents.mapM fun json => (schema source json).run).run held).1 =
      documents.map fun json => ((schema source json).run.run []).1 := by
  induction documents generalizing held with
  | nil => rfl
  | cons json documents ih =>
      -- The others are read in whatever session the first document leaves.
      rw [List.mapM_cons, stateM_run_bind, stateM_run_bind, List.map_cons]
      show _ :: _ = _
      rw [ih, run_schema_of_held]

end Reflection

/-- The documents of a session are read as each is in a session of its own: none of them, accepted
or refused, shows in the reading of another. -/
theorem Schema.ofDocuments_eq_map (source : String) (documents : List Json) :
    ofDocuments source documents = documents.map (ofJson source) := by
  calc ofDocuments source documents
      = (documents.map fun json => ((Reflection.schema source json).run.run []).1).map
          (·.mapError (.invalid source)) :=
        congrArg (List.map _) (Reflection.run_schemas source documents [])
    _ = documents.map (ofJson source) := List.map_map

end PklBindings
