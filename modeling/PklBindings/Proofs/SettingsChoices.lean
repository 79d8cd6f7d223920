import Mathlib.Data.List.Sort
import Mathlib.Data.String.Basic
import PklBindings.Proofs.ObjectMembers
import PklBindings.Proofs.Results
import PklBindings.Settings

/-!
# What a settings document chooses

A document that is accepted makes a choice for each option that it has a member for, and these
choices are put over the options of before (`Settings.apply_eq_ok_iff`). The choices of a document
whose members are overridden by those of another are overridden in the same way
(`Settings.Chooses.overridden`), and the members that mean nothing are the same if none of them
comes from the other document (`Settings.unknownNames_eq`).
-/

namespace PklBindings

open Json (Members)

namespace Settings

variable {α : Type} {members upper merged : Members} {name : String}
  {read : Json → Except SettingRule α} {store : α → Options → Options} {o o' : Options}

/-! ## Choices -/

/-- The options that a document has values for. -/
structure Choice where
  outDir : Option String := none
  indentUnit : Option String := none
  fileSuffix : Option String := none
  headerLines : Option (List String) := none
  dryRun : Option Bool := none
  noOverwrite : Option Bool := none
  deriving DecidableEq, Repr

namespace Choice

/-- Options in which the chosen ones are replaced. -/
def onto (c : Choice) (o : Options) : Options where
  outDir := c.outDir.getD o.outDir
  indentUnit := c.indentUnit.getD o.indentUnit
  fileSuffix := c.fileSuffix.getD o.fileSuffix
  headerLines := c.headerLines.getD o.headerLines
  policy := {
    dryRun := c.dryRun.getD o.policy.dryRun
    noOverwrite := c.noOverwrite.getD o.policy.noOverwrite
    fileMode := o.policy.fileMode }

/-- The choices of `c` and, where it makes none, those of `d`. -/
def or (c d : Choice) : Choice where
  outDir := c.outDir.or d.outDir
  indentUnit := c.indentUnit.or d.indentUnit
  fileSuffix := c.fileSuffix.or d.fileSuffix
  headerLines := c.headerLines.or d.headerLines
  dryRun := c.dryRun.or d.dryRun
  noOverwrite := c.noOverwrite.or d.noOverwrite

theorem onto_or (c d : Choice) (o : Options) : (c.or d).onto o = c.onto (d.onto o) := by
  have hgetD {β : Type} (v w : Option β) (b : β) : (v.or w).getD b = v.getD (w.getD b) := by
    cases v <;> rfl
  simp only [onto, or, hgetD]

end Choice

/-- The value of a member, if the document has it. -/
def member? (members : Members) (name : String) (read : Json → Except SettingRule α) :
    Except SettingRule (Option α) :=
  match members.get? name with
  | none => .ok none
  | some json => (read json).map some

theorem member?_or {v w : Option α}
    (hget : merged.get? name = (upper.get? name).or (members.get? name))
    (hupper : member? upper name read = .ok v) (hmembers : member? members name read = .ok w) :
    member? merged name read = .ok (v.or w) := by
  rw [member?] at hupper ⊢
  rw [hget]
  cases hname : upper.get? name with
  | none =>
      rw [hname] at hupper
      cases hupper
      exact hmembers
  | some json =>
      rw [hname] at hupper
      dsimp only at hupper
      cases hread : read json with
      | error rule =>
          rw [hread] at hupper
          cases hupper
      | ok value =>
          rw [hread] at hupper
          cases hupper
          dsimp only [Option.or]
          rw [hread]
          rfl

/-- Every member that means something has a value as it has to be, and these values are chosen. -/
structure Chooses (members : Members) (c : Choice) : Prop where
  indentUnit : member? members "indent" indentUnit = .ok c.indentUnit
  fileSuffix : member? members "fileSuffix" text = .ok c.fileSuffix
  outDir : member? members "outputDirectory" text = .ok c.outDir
  dryRun : member? members "dryRun" flag = .ok c.dryRun
  noOverwrite : member? members "noOverwrite" flag = .ok c.noOverwrite
  headerLines : member? members "headerLines" lines = .ok c.headerLines

theorem Chooses.overridden {c d : Choice} (hupper : Chooses upper c) (h : Chooses members d)
    (hmerged : Members.Overridden upper members merged) : Chooses merged (c.or d) where
  indentUnit := member?_or (hmerged.get?_eq _) hupper.indentUnit h.indentUnit
  fileSuffix := member?_or (hmerged.get?_eq _) hupper.fileSuffix h.fileSuffix
  outDir := member?_or (hmerged.get?_eq _) hupper.outDir h.outDir
  dryRun := member?_or (hmerged.get?_eq _) hupper.dryRun h.dryRun
  noOverwrite := member?_or (hmerged.get?_eq _) hupper.noOverwrite h.noOverwrite
  headerLines := member?_or (hmerged.get?_eq _) hupper.headerLines h.headerLines

/-! ## Applying -/

/-- A member is applied when its value is as it has to be; without it nothing changes. -/
theorem run_applyMember_eq_ok_iff {u : Unit} :
    (applyMember members name read store).run.run o = (.ok u, o') ↔
      ∃ v, member? members name read = .ok v ∧ v.elim o (store · o) = o' := by
  rw [applyMember, member?]
  cases members.get? name with
  | none =>
      constructor
      · intro h
        cases h
        exact ⟨none, rfl, rfl⟩
      · rintro ⟨v, hv, rfl⟩
        cases hv
        rfl
  | some json =>
      dsimp only
      cases read json with
      | error rule =>
          constructor
          · intro h
            cases h
          · rintro ⟨v, hv, -⟩
            cases hv
      | ok value =>
          constructor
          · intro h
            cases h
            exact ⟨some value, rfl, rfl⟩
          · rintro ⟨v, hv, rfl⟩
            cases hv
            rfl

theorem run_requireSuffix_eq_ok_iff {u : Unit} :
    requireSuffix.run.run o = (.ok u, o') ↔ o.fileSuffix ≠ "" ∧ o = o' := by
  have hget : (get : Applying Options).run.run o = (.ok o, o) := rfl
  rw [requireSuffix, run_bind, hget]
  dsimp only
  by_cases hsuffix : o.fileSuffix = ""
  · rw [if_pos hsuffix]
    constructor
    · intro h
      cases h
    · rintro ⟨hne, -⟩
      exact absurd hsuffix hne
  · rw [if_neg hsuffix, run_pure]
    constructor
    · intro h
      cases h
      exact ⟨hsuffix, rfl⟩
    · rintro ⟨-, rfl⟩
      rfl

/-- What is chosen is stored one option after another. -/
theorem Choice.onto_eq (c : Choice) (o : Options) :
    c.onto o =
      let o := c.indentUnit.elim o fun s => { o with indentUnit := s }
      let o := c.fileSuffix.elim o fun s => { o with fileSuffix := s }
      let o := c.outDir.elim o fun s => { o with outDir := s }
      let o := c.dryRun.elim o fun b => { o with policy.dryRun := b }
      let o := c.noOverwrite.elim o fun b => { o with policy.noOverwrite := b }
      c.headerLines.elim o fun ls => { o with headerLines := ls } := by
  obtain ⟨outDir, indent, suffix, header, dryRun, noOverwrite⟩ := c
  cases indent <;> cases suffix <;> cases outDir <;> cases dryRun <;> cases noOverwrite <;>
    cases header <;> rfl

/-- The suffix is settled when the first two options have been stored. -/
theorem Choice.fileSuffix_onto (c : Choice) (o : Options) :
    (c.onto o).fileSuffix =
      let o := c.indentUnit.elim o fun s => { o with indentUnit := s }
      (c.fileSuffix.elim o fun s => { o with fileSuffix := s }).fileSuffix := by
  obtain ⟨outDir, indent, suffix, header, dryRun, noOverwrite⟩ := c
  cases indent <;> cases suffix <;> rfl

/-- A document is accepted when its members make a choice that leaves a suffix. -/
theorem apply_eq_ok_iff {u : Unit} :
    (apply (.object members)).run.run o = (.ok u, o') ↔
      ∃ c, Chooses members c ∧ (c.onto o).fileSuffix ≠ "" ∧ c.onto o = o' := by
  simp only [apply, Json.members?, run_bind_eq_ok_iff, run_applyMember_eq_ok_iff,
    run_requireSuffix_eq_ok_iff]
  constructor
  · rintro ⟨_, _, ⟨indent, hindent, rfl⟩, _, _, ⟨suffix, hsuffix, rfl⟩, _, _, ⟨hne, rfl⟩, _, _,
      ⟨outDir, houtDir, rfl⟩, _, _, ⟨dryRun, hdryRun, rfl⟩, _, _, ⟨noOverwrite, hnoOverwrite, rfl⟩,
      header, hheader, rfl⟩
    let c : Choice := ⟨outDir, indent, suffix, header, dryRun, noOverwrite⟩
    refine ⟨c, ⟨hindent, hsuffix, houtDir, hdryRun, hnoOverwrite, hheader⟩, ?_, c.onto_eq o⟩
    rw [c.fileSuffix_onto]
    exact hne
  · rintro ⟨c, hc, hne, rfl⟩
    rw [c.fileSuffix_onto] at hne
    rw [c.onto_eq]
    exact ⟨(), _, ⟨c.indentUnit, hc.indentUnit, rfl⟩, (), _, ⟨c.fileSuffix, hc.fileSuffix, rfl⟩,
      (), _, ⟨hne, rfl⟩, (), _, ⟨c.outDir, hc.outDir, rfl⟩, (), _, ⟨c.dryRun, hc.dryRun, rfl⟩,
      (), _, ⟨c.noOverwrite, hc.noOverwrite, rfl⟩, c.headerLines, hc.headerLines, rfl⟩

/-! ## Members that mean nothing -/

/-- The members that mean nothing stay as they are when others are put over the object. -/
theorem unknownNames_eq (hmerged : Members.Overridden upper members merged)
    (hupper : ∀ name ∈ upper.map (·.1), name ∈ knownNames) :
    unknownNames merged = unknownNames members := by
  have hperm : ((merged.map (·.1)).filter (!knownNames.contains ·)).Perm
      ((members.map (·.1)).filter (!knownNames.contains ·)) := by
    rw [List.perm_ext_iff_of_nodup (hmerged.nodup_merged.filter _) (hmerged.nodup.filter _)]
    intro name
    rw [List.mem_filter, List.mem_filter, and_congr_left_iff]
    intro hunknown
    -- A name that means nothing is not in the other object.
    have hnone : upper.get? name = none := by
      rw [← not_ne_iff, ← Members.mem_names_iff]
      intro hname
      simp [hupper name hname] at hunknown
    rw [Members.mem_names_iff, Members.mem_names_iff, hmerged.get?_eq, hnone, Option.none_or]
  -- Both lists are sorted, so they are the same and not only the same up to order.
  refine List.Perm.eq_of_pairwise' (List.pairwise_mergeSort' (· ≤ ·) _)
    (List.pairwise_mergeSort' (· ≤ ·) _) ?_
  exact (List.mergeSort_perm _ _).trans (hperm.trans (List.mergeSort_perm _ _).symm)

end Settings

end PklBindings
