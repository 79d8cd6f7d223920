import Mathlib.Data.List.Nodup
import PklBindings.Proofs.ReadSchema

/-!
# The sources of bindings

Look-up in a table reaches every binding when no two bindings have one source. The table of a schema
that is read is of this kind if the document gives the bindings itself. If they are derived, it is
exactly when the declarations have qualified names of their own (`Schema.sources_nodup_iff`), and
nothing makes sure of that: a class and an enumeration of one name are both read
(`Schema.exists_sources_not_nodup`).
-/

namespace PklBindings

open Reflection (sources WithoutBindings)

/-- Among bindings with sources of their own, each is found by its source. -/
theorem BindingTable.find?_source {table : BindingTable} (h : (sources table.entries).Nodup) :
    ∀ b ∈ table.entries, table.find? b.source = some b := by
  intro b hb
  obtain ⟨found, hfound⟩ : ∃ found, table.find? b.source = some found := by
    rw [← Option.isSome_iff_exists, find?, List.find?_isSome]
    exact ⟨b, hb, by simp⟩
  -- What is found has the source as well, so it is the same binding.
  rw [hfound, List.inj_on_of_nodup_map h (List.mem_of_find?_eq_some hfound) hb
    (source_of_find? hfound)]

namespace Schema

variable {source : String} {json : Json} {schema : Schema}

/-- The sources in the table of a schema that is read are distinct exactly when the document gives
bindings of its own or its declarations have distinct qualified names. Then every binding is found
by its source. -/
theorem sources_nodup_iff (h : Schema.ofJson source json = .ok schema) :
    ((sources schema.bindings.entries).Nodup ↔
      (WithoutBindings json → (schema.modules.flatMap Module.qualifiedNames).Nodup)) ∧
    ((sources schema.bindings.entries).Nodup →
      ∀ b ∈ schema.bindings.entries, schema.bindings.find? b.source = some b) := by
  obtain ⟨s, hrun⟩ := run_schema_of_ofJson h
  obtain ⟨-, hderived, hgiven⟩ := Reflection.run_schema_eq_ok hrun
  refine ⟨?_, BindingTable.find?_source⟩
  by_cases hwithout : WithoutBindings json
  · rw [hderived hwithout]
    exact ⟨fun hnodup _ => hnodup, fun hnodup => hnodup hwithout⟩
  · exact ⟨fun _ hderive => absurd hderive hwithout, fun _ => hgiven hwithout⟩

/-! ## Two declarations of one name -/

/-- A module with a class and an enumeration that are both called `A`; the enumeration asks for
another Python name. -/
def namesakeDocument : Json :=
  .object [("modules", .array [.object [("name", .string "m"), ("declarations", .array [
    .object [("kind", .string "module"), ("name", .string "M")],
    .object [("kind", .string "class"), ("name", .string "A")],
    .object [("kind", .string "enum"), ("name", .string "A"), ("pythonName", .string "B")]])]])]

/-- The schema of the document. -/
def namesakeSchema : Schema where
  modules := [{
    name := "m"
    declarations := [
      { kind := .moduleClass, name := "M", moduleName := "m", location := ⟨"s", 1, 1⟩ },
      { kind := .ordinaryClass, name := "A", moduleName := "m", location := ⟨"s", 1, 1⟩ },
      { kind := .enumeration, name := "A", moduleName := "m", location := ⟨"s", 1, 1⟩ }] }]
  bindings := ⟨[
    { kind := .moduleClass, source := "m", location := ⟨"s", 1, 1⟩, space := "m",
      name := "ModuleClass" },
    { kind := .ordinaryClass, source := "m#A", location := ⟨"s", 1, 1⟩, space := "m", name := "A" },
    { kind := .enumeration, source := "m#A", location := ⟨"s", 1, 1⟩, space := "m", name := "B" }]⟩

/-- In the schema of the document, sources are as distinct as qualified names: not at all. -/
theorem sources_nodup_iff_namesakeSchema :
    Schema.ofJson "s" namesakeDocument = .ok namesakeSchema ∧
      ((sources namesakeSchema.bindings.entries).Nodup ↔ (WithoutBindings namesakeDocument →
        (namesakeSchema.modules.flatMap Module.qualifiedNames).Nodup)) ∧
      ((sources namesakeSchema.bindings.entries).Nodup → ∀ b ∈ namesakeSchema.bindings.entries,
        namesakeSchema.bindings.find? b.source = some b) := by
  have hread : Schema.ofJson "s" namesakeDocument = .ok namesakeSchema := rfl
  exact ⟨hread, sources_nodup_iff hread⟩

/-- A document can be read although two of the bindings that are derived from it have one source.
The second of them is never found. -/
theorem exists_sources_not_nodup :
    Schema.ofJson "s" namesakeDocument = .ok namesakeSchema ∧
      ¬ (sources namesakeSchema.bindings.entries).Nodup ∧
      ∃ b ∈ namesakeSchema.bindings.entries, ∀ ref, namesakeSchema.bindings.find? ref ≠ some b := by
  refine ⟨rfl, by decide, ⟨.enumeration, "m#A", ⟨"s", 1, 1⟩, "m", "B"⟩, by decide, ?_⟩
  intro ref hfind
  -- A binding is found by its own source only, and by that the class is found.
  obtain rfl : "m#A" = ref := BindingTable.source_of_find? hfind
  revert hfind
  decide

end Schema

end PklBindings
