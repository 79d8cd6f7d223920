import PklBindings.Proofs.Collisions
import PklBindings.Proofs.NameAgreement

/-!
# What a document takes from the table

Of all the bindings in a table, the document of a module depends on two parts alone: on the bindings
that are found for the names which the module mentions, and on the bindings into its own namespace,
which must not collide. Tables that agree on these two parts give the same document, or the same
error (`Module.document_local`). Whatever else is bound, in whatever namespace and with whatever
collisions, is of no account.
-/

namespace PklBindings

open Target (AgreeOn)

namespace Target

/-- Two tables from which the same is found for each of the names, seen from one namespace. -/
theorem agreeOn_of_find?_eq {refs : List String} {table table' : BindingTable}
    (h : ∀ ref ∈ refs, table.find? ref = table'.find? ref) (space indentUnit fileSuffix : String) :
    AgreeOn refs ⟨space, table, indentUnit, fileSuffix⟩
      ⟨space, table', indentUnit, fileSuffix⟩ where
  space_eq := rfl
  indentUnit_eq := rfl
  fileSuffix_eq := rfl
  boundName_eq := fun ref href => congrArg (Option.map Binding.boundName) (h ref href)

end Target

namespace Module

variable {m : Module} {t t' : Target}

/-- Names that collide are reported with all their bindings, so these have to be the same in both
tables. -/
theorem orderedMembers_congr (h : AgreeOn m.mentions t t')
    (hspace : t.bindings.inSpace t.space = t'.bindings.inSpace t'.space) :
    m.orderedMembers t = m.orderedMembers t' := by
  have hplaces : m.declarations.forM (m.checkPlace t) = m.declarations.forM (m.checkPlace t') :=
    forM_congr fun d hd => checkPlace_congr ((agreeOn_of_mem h hd).mono (by simp))
  have hcollisions : checkCollisions t = checkCollisions t' := by
    rw [checkCollisions, checkCollisions, Collision.inSpace, Collision.inSpace, hspace]
  rw [orderedMembers, orderedMembers, hplaces, hcollisions, members_congr h]

theorem document_congr (h : AgreeOn m.mentions t t')
    (hspace : t.bindings.inSpace t.space = t'.bindings.inSpace t'.space) (header : List String) :
    m.document t header = m.document t' header := by
  rw [document, document, orderedMembers_congr h hspace]
  simp only [Document.ofMembers_congr h]

end Module

/-! ## Bindings that concern a module -/

/-- Whether a binding concerns a module that is written to a namespace: it leads into the namespace,
or it binds a name that the module mentions. -/
def Binding.concerns (m : Module) (space : String) (b : Binding) : Bool :=
  b.space = space || m.mentions.contains b.source

/-- The bindings that concern a module, in order. -/
def BindingTable.concerning (table : BindingTable) (m : Module) (space : String) : List Binding :=
  table.entries.filter (Binding.concerns m space)

namespace BindingTable

variable {m : Module} {space : String} {table table' : BindingTable}

/-- What is found for a name that the module mentions concerns the module. -/
theorem find?_concerning {ref : String} (href : ref ∈ m.mentions) :
    (table.concerning m space).find? (·.source = ref) = table.find? ref := by
  rw [concerning, List.find?_filter, find?]
  congr 1
  funext b
  by_cases hsource : b.source = ref
  · simp [Binding.concerns, hsource, href]
  · simp [hsource]

theorem filter_concerning :
    (table.concerning m space).filter (·.space = space) = table.inSpace space := by
  rw [concerning, List.filter_filter, inSpace]
  refine List.filter_congr fun b _ => ?_
  by_cases hspace : b.space = space <;> simp [Binding.concerns, hspace]

end BindingTable

/-! ## Locality -/

/-- Two tables give a module the same document in a namespace, or the same error, if the same is
found in both for every name that the module mentions, and if both bind the same into the namespace.
The names are those of its declarations and those that the code of its declarations refers to:
nothing need be found for what a hidden property refers to. So it is enough that the tables have the
same bindings which concern the module, whatever bindings are between and behind them. -/
theorem Module.document_local (m : Module) (space : String) (table table' : BindingTable)
    (indentUnit fileSuffix : String) (header : List String) :
    ((∀ name ∈ m.mentions, table.find? name = table'.find? name) →
        table.inSpace space = table'.inSpace space →
      m.document ⟨space, table, indentUnit, fileSuffix⟩ header =
        m.document ⟨space, table', indentUnit, fileSuffix⟩ header) ∧
    (table.concerning m space = table'.concerning m space →
      m.document ⟨space, table, indentUnit, fileSuffix⟩ header =
        m.document ⟨space, table', indentUnit, fileSuffix⟩ header) := by
  have hlocal (hfind : ∀ name ∈ m.mentions, table.find? name = table'.find? name)
      (hspace : table.inSpace space = table'.inSpace space) :=
    document_congr (Target.agreeOn_of_find?_eq hfind space indentUnit fileSuffix) hspace header
  refine ⟨hlocal, ?_⟩
  intro hconcerning
  refine hlocal ?_ ?_
  · intro name hname
    rw [← BindingTable.find?_concerning hname, hconcerning, BindingTable.find?_concerning hname]
  · rw [← BindingTable.filter_concerning, hconcerning, BindingTable.filter_concerning]

/-! ## A table with more in it -/

/-- A module with a class that extends a class of another module. -/
def heirModule : Module where
  name := "m"
  declarations := [
    { kind := .moduleClass, name := "M", moduleName := "m" },
    { kind := .ordinaryClass, name := "Heir", moduleName := "m", superclass := "base#Root" }]

/-- The bindings of the module and of the superclass. -/
def heirTable : BindingTable where
  entries := [
    { kind := .moduleClass, source := "m", space := "m", name := "ModuleClass" },
    { kind := .ordinaryClass, source := "m#Heir", space := "m", name := "Heir" },
    { kind := .ordinaryClass, source := "base#Root", space := "base", name := "Root" }]

/-- The same bindings between two others that collide with the superclass. -/
def crowdedTable : BindingTable where
  entries :=
    { kind := .enumeration, source := "base#Old", space := "base", name := "Root" } ::
      heirTable.entries ++
      [{ kind := .typeAlias, source := "base#New", space := "base", name := "Root" }]

/-- Collisions in the namespace of the superclass do not change the module. -/
theorem Module.document_local_crowdedTable :
    heirTable.concerning heirModule "m" = crowdedTable.concerning heirModule "m" ∧
      (∀ name ∈ heirModule.mentions, heirTable.find? name = crowdedTable.find? name) ∧
      heirTable.inSpace "m" = crowdedTable.inSpace "m" ∧
      Collision.inSpace crowdedTable "base" ≠ [] ∧
      heirModule.document ⟨"m", heirTable, "  ", "pkl"⟩ [] =
        heirModule.document ⟨"m", crowdedTable, "  ", "pkl"⟩ [] := by
  have hconcerning : heirTable.concerning heirModule "m" =
      crowdedTable.concerning heirModule "m" := by decide
  have hfind : ∀ name ∈ heirModule.mentions, heirTable.find? name = crowdedTable.find? name := by
    decide
  have hspace : heirTable.inSpace "m" = crowdedTable.inSpace "m" := by decide
  have hcollision : Collision.inSpace crowdedTable "base" ≠ [] := by
    intro hnone
    exact absurd ((Collision.all_eq_nil_iff _).1 hnone) (by decide)
  refine ⟨hconcerning, hfind, hspace, hcollision, ?_⟩
  exact (Module.document_local heirModule "m" heirTable crowdedTable "  " "pkl" []).1 hfind hspace

end PklBindings
