import PklBindings.Proofs.ArgumentGroups
import PklBindings.Proofs.DryRun

/-!
# Arguments in another order

A command line is of parts: groups of arguments, and words that ask for help. When the parts are
valid and no two start with one word, the program takes them one by one, whatever the values look
like, and they ask for the same in every order (`ArgumentPart.parse_perm`). So a run over them ends
in the same way and leaves the same disk (`CommandLine.run_permuted`).
-/

namespace PklBindings

/-- A group of arguments, or a word that asks for help. -/
inductive ArgumentPart where
  | group (g : ArgumentGroup)
  | help
  | shortHelp
  deriving DecidableEq, Repr

namespace ArgumentPart

variable {reader : TextReader} {parts parts' : List ArgumentPart} {a : Arguments}

/-- The word that tells what the part is; the schema file stands without one. -/
def word : ArgumentPart → Option String
  | group g => g.word
  | help => some "--help"
  | shortHelp => some "-h"

/-- The arguments themselves. -/
def tokens : ArgumentPart → List String
  | group g => g.tokens
  | help => ["--help"]
  | shortHelp => ["-h"]

/-- The part is accepted wherever it stands. -/
def IsValid (reader : TextReader) : ArgumentPart → Prop
  | group g => g.IsValid reader
  | help | shortHelp => True

/-- The group, unless the part asks for help. -/
def group? : ArgumentPart → Option ArgumentGroup
  | group g => some g
  | help | shortHelp => none

/-- What arguments ask for in the end: help, if one of the parts asks for it, and otherwise what has
been stored, if there is a schema file. -/
def outcome (reader : TextReader) (parts : List ArgumentPart) (a : Arguments) :
    Except UsageError Request :=
  if parts.any (·.group?.isNone) then .ok .help
  else
    let a := (parts.filterMap group?).foldl (Arguments.store reader) a
    if a.schemaFile = "" then .error .noSchemaFile else .ok (.generate a)

/-- What a command line of the parts asks for. -/
def request (reader : TextReader) (parts : List ArgumentPart) : Except UsageError Request :=
  if parts = [] then .error .noArguments else outcome reader parts {}

/-- Valid parts are taken one by one, if there is room for one schema file. -/
theorem take_parts (hvalid : ∀ p ∈ parts, p.IsValid reader) (hwords : (parts.map word).Nodup)
    (hfile : none ∈ parts.map word → a.schemaFile = "") :
    a.take reader (parts.flatMap tokens) = outcome reader parts a := by
  induction parts generalizing a with
  | nil => rw [List.flatMap_nil, Arguments.take, outcome]; rfl
  | cons p parts ih =>
      rw [List.forall_mem_cons] at hvalid
      rw [List.map_cons, List.nodup_cons] at hwords
      rw [List.flatMap_cons]
      cases p with
      | group g =>
          have hfirst : g.word = none → a.schemaFile = "" := by
            intro hword
            exact hfile (by rw [List.map_cons, word, hword]; exact List.mem_cons_self)
          have hrest : none ∈ parts.map word → (a.store reader g).schemaFile = "" :=
            Arguments.schemaFile_store_of_notMem hwords.1 hfile
          rw [tokens, Arguments.take_group hvalid.1 hfirst, ih hvalid.2 hwords.2 hrest]
          rfl
      -- Help is final: the parts behind it are not looked at.
      | help => exact Arguments.take_help (by decide)
      | shortHelp => exact Arguments.take_help (by decide)

theorem tokens_ne_nil (p : ArgumentPart) : p.tokens ≠ [] := by
  cases p with
  | group g => cases g <;> exact List.cons_ne_nil _ _
  | help => exact List.cons_ne_nil _ _
  | shortHelp => exact List.cons_ne_nil _ _

theorem parse_parts (hvalid : ∀ p ∈ parts, p.IsValid reader) (hwords : (parts.map word).Nodup) :
    Arguments.parse reader (parts.flatMap tokens) = request reader parts := by
  cases parts with
  | nil => rfl
  | cons p parts =>
      have htake := take_parts hvalid hwords (a := {}) fun _ => rfl
      obtain ⟨first, others, hfirst⟩ := List.exists_cons_of_ne_nil p.tokens_ne_nil
      rw [List.flatMap_cons, hfirst, List.cons_append] at htake ⊢
      rw [request, if_neg (List.cons_ne_nil _ _)]
      exact htake

theorem words_groups_sublist (parts : List ArgumentPart) :
    ((parts.filterMap group?).map ArgumentGroup.word).Sublist (parts.map word) := by
  induction parts with
  | nil => exact .slnil
  | cons p parts ih =>
      cases p with
      | group g => exact ih.cons_cons _
      | help => exact ih.cons _
      | shortHelp => exact ih.cons _

/-- In whatever order the parts stand, they ask for the same. -/
theorem parse_perm (hvalid : ∀ p ∈ parts, p.IsValid reader) (hwords : (parts.map word).Nodup)
    (hperm : parts'.Perm parts) :
    Arguments.parse reader (parts'.flatMap tokens) = request reader parts := by
  have hvalid' : ∀ p ∈ parts', p.IsValid reader := fun p hp => hvalid p (hperm.mem_iff.1 hp)
  have hwords' : (parts'.map word).Nodup := (hperm.map word).nodup_iff.2 hwords
  have hempty : parts' = [] ↔ parts = [] := by
    rw [← List.length_eq_zero_iff, hperm.length_eq, List.length_eq_zero_iff]
  have hgroups : ((parts'.filterMap group?).map ArgumentGroup.word).Nodup :=
    hwords'.sublist (words_groups_sublist parts')
  have hstored : (parts'.filterMap group?).foldl (Arguments.store reader) {} =
      (parts.filterMap group?).foldl (Arguments.store reader) {} :=
    Arguments.foldl_store_perm reader (hperm.filterMap group?) hgroups {}
  rw [parse_parts hvalid' hwords', request, request, outcome, outcome, hstored, hperm.any_eq]
  simp only [hempty]

end ArgumentPart

namespace CommandLine

variable {reader : TextReader} {parts parts' : List ArgumentPart}

/-- Valid parts of a command line, no two of which start with one word, may stand in any order. They
come to the same request, of which each group has given its part, and so a run ends with the same
status, prints the same and leaves the same disk. -/
theorem run_permuted (hvalid : ∀ p ∈ parts, p.IsValid reader)
    (hwords : (parts.map ArgumentPart.word).Nodup) (hperm : parts'.Perm parts) (disk : Disk) :
    Arguments.parse reader (parts'.flatMap ArgumentPart.tokens) =
      ArgumentPart.request reader parts ∧
    (run reader (parts'.flatMap ArgumentPart.tokens) : StateM Disk RunResult).run disk =
      (run reader (parts.flatMap ArgumentPart.tokens) : StateM Disk RunResult).run disk := by
  have hparse := ArgumentPart.parse_perm hvalid hwords hperm
  refine ⟨hparse, ?_⟩
  rw [run, run, hparse, ArgumentPart.parse_parts hvalid hwords]

/-- Parts whose values look like options, a switch among them. -/
def dashedParts : List ArgumentPart :=
  [.group (.option .outDir "--help"), .group (.schemaFile "m.json"), .group .dryRun,
    .group (.option .suffix "-h")]

/-- The parts from the left and from the right. -/
theorem run_permuted_dashedParts :
    (∀ p ∈ dashedParts, p.IsValid .strict) ∧ (dashedParts.map ArgumentPart.word).Nodup ∧
    dashedParts.reverse.Perm dashedParts ∧
    Arguments.parse .strict ["--suffix", "-h", "--dry-run", "m.json", "--out-dir", "--help"] =
      .ok (.generate
        { schemaFile := "m.json", outDir := some "--help", fileSuffix := some "-h",
          dryRun := true }) ∧
    (run .strict ["--suffix", "-h", "--dry-run", "m.json", "--out-dir", "--help"] :
      StateM Disk RunResult).run schemaDisk =
      (run .strict ["--out-dir", "--help", "m.json", "--dry-run", "--suffix", "-h"] :
        StateM Disk RunResult).run schemaDisk := by
  have hvalid : ∀ p ∈ dashedParts, p.IsValid .strict := by
    simp [dashedParts, ArgumentPart.IsValid, ArgumentGroup.IsValid]
  have hwords : (dashedParts.map ArgumentPart.word).Nodup := by decide
  have hperm := dashedParts.reverse_perm
  exact ⟨hvalid, hwords, hperm, run_permuted hvalid hwords hperm schemaDisk⟩

end CommandLine

end PklBindings
