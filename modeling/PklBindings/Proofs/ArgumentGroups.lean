import PklBindings.Proofs.CommandLineRuns

/-!
# Groups of arguments

Arguments come in groups: the schema file, an option with its value, or a switch. A valid group is
taken as a whole, whatever its value looks like (`Arguments.take_group`). Groups that start with
different words can be taken in either order (`Arguments.store_comm`), so valid groups of which no
two start with one word come to the same arguments in every order (`Arguments.foldl_store_perm`).
-/

namespace PklBindings

/-- The word by which an option is named. -/
def ValueOption.word : ValueOption → String
  | outDir => "--out-dir"
  | settings => "--settings"
  | indent => "--indent"
  | suffix => "--suffix"

theorem ValueOption.ofArgument?_word (option : ValueOption) :
    ofArgument? option.word = some option := by
  cases option <;> rfl

/-- Arguments that are taken together. -/
inductive ArgumentGroup where
  | schemaFile (path : String)
  | option (name : ValueOption) (value : String)
  | dryRun
  | noOverwrite
  deriving DecidableEq, Repr

namespace ArgumentGroup

/-- The word that tells what the group is; the schema file stands without one. -/
def word : ArgumentGroup → Option String
  | schemaFile _ => none
  | option name _ => some name.word
  | dryRun => some "--dry-run"
  | noOverwrite => some "--no-overwrite"

/-- The arguments themselves. -/
def tokens : ArgumentGroup → List String
  | schemaFile path => [path]
  | option name value => [name.word, value]
  | dryRun => ["--dry-run"]
  | noOverwrite => ["--no-overwrite"]

/-- The group is accepted wherever it stands. A schema file is not taken for an option, a width has
an indent unit, and a suffix is not empty. -/
def IsValid (reader : TextReader) : ArgumentGroup → Prop
  | schemaFile path => path ≠ "" ∧ path.toList.head? ≠ some '-'
  | option .indent value => ∃ unit, Arguments.indentUnitOf reader value = .ok unit
  | option .suffix value => value ≠ ""
  | option .outDir _ | option .settings _ | dryRun | noOverwrite => True

end ArgumentGroup

namespace Arguments

open ArgumentGroup (word tokens IsValid)

variable {reader : TextReader} {a : Arguments} {g g' : ArgumentGroup}
  {groups groups' : List ArgumentGroup}

/-- What a valid group changes. -/
def store (reader : TextReader) (a : Arguments) : ArgumentGroup → Arguments
  | .schemaFile path => { a with schemaFile := path }
  | .option .outDir value => { a with outDir := some value }
  | .option .settings value => { a with settingsFile := value }
  | .option .indent value => { a with indentUnit := (indentUnitOf reader value).toOption }
  | .option .suffix value => { a with fileSuffix := some value }
  | .dryRun => { a with dryRun := true }
  | .noOverwrite => { a with noOverwrite := true }

theorem setOption_eq_store {name : ValueOption} {value : String}
    (h : IsValid reader (.option name value)) (a : Arguments) :
    a.setOption reader value name = .ok (a.store reader (.option name value)) := by
  cases name with
  | outDir => rfl
  | settings => rfl
  | indent =>
      obtain ⟨unit, hunit⟩ := h
      rw [setOption, store, hunit]
      rfl
  | suffix => exact if_neg h

/-- A word in front of a group is no help and no switch, be it an option or a schema file. -/
theorem ofArgument?_eq_none_of_head {path : String} (h : path.toList.head? ≠ some '-') :
    isHelp path = false ∧ ValueOption.ofArgument? path = none ∧ ∀ a, switch? a path = none := by
  have hne (word : String) (hword : word.toList.head? = some '-') : path ≠ word := by
    rintro rfl
    exact h hword
  refine ⟨?_, ?_, ?_⟩
  · simp [isHelp, hne "--help" rfl, hne "-h" rfl]
  · simp [ValueOption.ofArgument?, hne "--out-dir" rfl, hne "--settings" rfl, hne "--indent" rfl,
      hne "--suffix" rfl]
  · intro a
    simp [switch?, hne "--dry-run" rfl, hne "--no-overwrite" rfl]

/-- A valid group is taken as a whole. -/
theorem take_group (hvalid : g.IsValid reader) (hfile : g.word = none → a.schemaFile = "")
    (rest : List String) :
    take reader a (g.tokens ++ rest) = take reader (a.store reader g) rest := by
  cases g with
  | schemaFile path =>
      obtain ⟨hne, hhead⟩ := hvalid
      obtain ⟨hhelp, hoption, hswitch⟩ := ofArgument?_eq_none_of_head hhead
      have hpositional : a.positional path = .ok (a.store reader (.schemaFile path)) := by
        rw [positional, if_neg hhead, if_pos (hfile rfl)]
        rfl
      rw [tokens, List.singleton_append]
      exact take_positional (by simp [hhelp]) hoption (hswitch a) hpositional
  | option name value =>
      have hhelp : ¬ isHelp name.word = true := by cases name <;> decide
      rw [tokens, List.cons_append, List.singleton_append]
      exact take_option hhelp name.ofArgument?_word (setOption_eq_store hvalid a)
  | dryRun =>
      have hhelp : ¬ isHelp "--dry-run" = true := by decide
      exact take_switch hhelp rfl rfl
  | noOverwrite =>
      have hhelp : ¬ isHelp "--no-overwrite" = true := by decide
      exact take_switch hhelp rfl rfl

theorem schemaFile_store (reader : TextReader) (hword : g.word ≠ none) (a : Arguments) :
    (a.store reader g).schemaFile = a.schemaFile := by
  cases g with
  | schemaFile path => exact (hword rfl).elim
  | option name value => cases name <;> rfl
  | dryRun => rfl
  | noOverwrite => rfl

/-- Behind a schema file there is room for no other one, and behind any other group there is as much
room as before it. -/
theorem schemaFile_store_of_notMem {words : List (Option String)} (hword : g.word ∉ words)
    (hfile : none ∈ g.word :: words → a.schemaFile = "") (hlater : none ∈ words) :
    (a.store reader g).schemaFile = "" := by
  have hnone : g.word ≠ none := by
    intro h
    exact hword (h ▸ hlater)
  rw [schemaFile_store reader hnone]
  exact hfile (List.mem_cons_of_mem _ hlater)

/-- Valid groups are taken one after another, if there is room for one schema file. -/
theorem take_groups (hvalid : ∀ g ∈ groups, g.IsValid reader) (hwords : (groups.map word).Nodup)
    (hfile : none ∈ groups.map word → a.schemaFile = "") (rest : List String) :
    take reader a (groups.flatMap tokens ++ rest) =
      take reader (groups.foldl (store reader) a) rest := by
  induction groups generalizing a with
  | nil => rfl
  | cons g groups ih =>
      rw [List.forall_mem_cons] at hvalid
      rw [List.map_cons, List.nodup_cons] at hwords
      rw [List.flatMap_cons, List.append_assoc, List.foldl_cons,
        take_group hvalid.1 fun h => hfile (by simp [h])]
      exact ih hvalid.2 hwords.2 (schemaFile_store_of_notMem hwords.1 hfile)

/-- Groups that start with different words change different things. -/
theorem store_comm (reader : TextReader) (h : g.word ≠ g'.word) (a : Arguments) :
    (a.store reader g).store reader g' = (a.store reader g').store reader g := by
  rcases g with path | ⟨_ | _ | _ | _, value⟩ | _ | _ <;>
    rcases g' with path' | ⟨_ | _ | _ | _, value'⟩ | _ | _ <;>
    first
    | rfl
    | exact (h rfl).elim

/-- The order of groups makes no difference, if no two start with one word. -/
theorem foldl_store_perm (reader : TextReader) (h : groups.Perm groups')
    (hwords : (groups.map word).Nodup) (a : Arguments) :
    groups.foldl (store reader) a = groups'.foldl (store reader) a := by
  refine h.foldl_eq' ?_ a
  intro g hg g' hg' a
  by_cases hword : g.word = g'.word
  · rw [List.inj_on_of_nodup_map hwords hg hg' hword]
  · exact store_comm reader hword a

/-- What valid groups ask for, a schema file among them, in whatever order they stand. -/
theorem parse_groups (hvalid : ∀ g ∈ groups, g.IsValid reader) (hwords : (groups.map word).Nodup)
    (hfile : none ∈ groups.map word) :
    parse reader (groups.flatMap tokens) = .ok (.generate (groups.foldl (store reader) {})) := by
  have htake : take reader {} (groups.flatMap tokens) =
      take reader (groups.foldl (store reader) {}) [] := by
    have h := take_groups hvalid hwords (fun _ => rfl) (a := {}) []
    rwa [List.append_nil] at h
  obtain ⟨g, hg, hword⟩ := List.mem_map.1 hfile
  cases g with
  | schemaFile path =>
      -- The schema file might as well stand last.
      have hschema : (groups.foldl (store reader) {}).schemaFile = path := by
        obtain ⟨before, behind, rfl⟩ := List.append_of_mem hg
        have hlast : (before ++ .schemaFile path :: behind).Perm
            (before ++ behind ++ [.schemaFile path]) :=
          List.perm_middle.trans (List.perm_append_singleton _ _).symm
        rw [foldl_store_perm reader hlast hwords, List.foldl_append]
        rfl
      rw [take, if_neg (hschema ▸ (hvalid _ hg).1)] at htake
      generalize groups.flatMap tokens = arguments at htake ⊢
      cases arguments with
      | nil => cases htake
      | cons argument rest => exact htake
  | option => cases hword
  | dryRun => cases hword
  | noOverwrite => cases hword

end Arguments

end PklBindings
