import Mathlib.Order.RelClasses
import PklBindings.Proofs.EmittedFiles

/-!
# Emissions that fail

What an emission does not do to the files of a disk, be it done or not and wherever it fails. Each
action may fail at any time, and a text may have been written in part by then
(`FileSystem.ActsOn`). A dry run changes nothing. A run that may not overwrite leaves every file
alone: nothing is written on a path before the path was found to lead to no file
(`Disk.keepsFiles_of_nothing`). Where the documents cannot be generated, nothing is written at all.
-/

namespace PklBindings

open DiskPath (placeFrom)
open Disk (KeepsFiles)

/-- Where nothing was found, no file is lost by writing a text, whatever is left of it, and by
setting access rights behind. -/
theorem Disk.keepsFiles_of_nothing {disk written final : Disk} {path : String}
    (h : disk.status path = .nothing)
    (hwritten : written = disk ∨ ∃ text, written = (disk.writeText path text).2)
    (hfinal : final = written ∨ ∃ mode, final = (written.setMode path mode).2) :
    KeepsFiles [] disk final := by
  rcases status_nothing_cases h with hnone | ⟨hwrite, hmode⟩
  · -- Both actions are at a place where no file was.
    have hfirst : KeepsFiles [placeFrom disk.workPlace path] disk written := by
      rcases hwritten with rfl | ⟨text, rfl⟩
      · exact .refl _ written
      · exact (sameFiles_writeText disk path text).toKeepsFiles
    have hsecond : KeepsFiles [placeFrom disk.workPlace path] written final := by
      rw [← hfirst.workPlace_eq]
      rcases hfinal with rfl | ⟨mode, rfl⟩
      · exact .refl _ final
      · exact (sameFiles_setMode written path mode).toKeepsFiles
    exact (hfirst.trans hsecond).of_no_file (by simp [hnone])
  · obtain rfl : written = disk := by
      rcases hwritten with rfl | ⟨text, rfl⟩
      · rfl
      · rw [hwrite]
    obtain rfl : final = written := by
      rcases hfinal with rfl | ⟨mode, rfl⟩
      · rfl
      · rw [hmode]
    exact .refl [] final

namespace FileSystem

variable {σ : Type} [FileSystem (StateM σ)] {diskOf : σ → Disk}

/-- The actions are actions on a disk, and any of them may fail. A status is the one on the disk or
unknown, and an action is done or leaves the disk as it was, but for a text, of which something else
may have been written. Nothing is said of removing, which takes no file away as long as files may
not be overwritten, since then it is not tried. -/
structure ActsOn (diskOf : σ → Disk) : Prop where
  currentDirectory : Keeps (Order.Preimage diskOf (· = ·))
    (FileSystem.currentDirectory : StateM σ String)
  status : ∀ {path s found s'}, (FileSystem.status path : StateM σ PathStatus).run s = (found, s') →
    diskOf s' = diskOf s ∧ (found = .unknown ∨ found = (diskOf s).status path)
  createDirectory : ∀ path, Keeps
    (Order.Preimage diskOf fun disk disk' => disk' = disk ∨ disk' = (disk.createDirectory path).2)
    (FileSystem.createDirectory path : StateM σ Bool)
  writeText : ∀ path text, Keeps
    (Order.Preimage diskOf fun disk disk' => disk' = disk ∨
      ∃ written, disk' = (disk.writeText path written).2)
    (FileSystem.writeText path text : StateM σ Bool)
  setMode : ∀ path mode, Keeps
    (Order.Preimage diskOf fun disk disk' => disk' = disk ∨ disk' = (disk.setMode path mode).2)
    (FileSystem.setMode path mode : StateM σ Bool)

namespace ActsOn

variable (h : ActsOn diskOf)

include h

/-- A dry run leaves the disk as it is. -/
theorem keeps_disk_of_dryRun {policy : WritePolicy} (hdry : policy.dryRun = true)
    (files : List (String × String)) :
    Keeps (Order.Preimage diskOf (· = ·))
      (writeFiles policy files : StateM σ (List String × Except WriteError Unit)) := by
  refine Keeps.compositional.writeFiles h.currentDirectory ?_
  intro file _
  rw [writeFile, hdry]
  exact Keeps.compositional.of_pure _

/-- To make room for a file takes no file away, whatever fails. -/
theorem keepsFiles_makeRoom (path : String) :
    Keeps (Order.Preimage diskOf (KeepsFiles []))
      (makeRoom path : ExceptT WriteError (StateM σ) Unit).run := by
  refine Keeps.compositional.relational.makeRoom ?_ ?_ path
  · intro path s
    exact .of_eq [] (h.status rfl).1.symm
  · intro path s
    rcases h.createDirectory path s with hnot | hdone
    · exact .of_eq [] hnot.symm
    · rw [Order.Preimage, hdone]
      exact (Disk.sameFiles_createDirectory (diskOf s) path).toKeepsFiles

/-- Where files may not be overwritten, the way of a file is cleared by there being nothing. -/
theorem run_clearWay_of_noOverwrite {policy : WritePolicy} (hkeep : policy.noOverwrite = true)
    {path : String} {s s' : σ} {result : Except WriteError Unit}
    (hrun : (clearWay policy path : ExceptT WriteError (StateM σ) Unit).run.run s = (result, s')) :
    diskOf s' = diskOf s ∧ (result = .ok () → (diskOf s).status path = .nothing) := by
  rw [clearWay, run_bind, hkeep] at hrun
  cases hstatus : (FileSystem.status path : StateM σ PathStatus).run s with
  | mk found t =>
  obtain ⟨hdisk, hfound⟩ := h.status hstatus
  rw [run_liftM, hstatus] at hrun
  -- The way is clear on one answer only, and this is the status on the disk.
  cases found with
  | nothing =>
      cases hrun
      exact ⟨hdisk, fun _ => (hfound.resolve_left (by simp)).symm⟩
  | unknown =>
      cases hrun
      exact ⟨hdisk, fun hdone => by cases hdone⟩
  | file =>
      cases hrun
      exact ⟨hdisk, fun hdone => by cases hdone⟩
  | directory =>
      cases hrun
      exact ⟨hdisk, fun hdone => by cases hdone⟩

/-- Where files may not be overwritten, no file is lost by writing one, even if that fails
midway. -/
theorem keepsFiles_writeFile {policy : WritePolicy} (hkeep : policy.noOverwrite = true)
    (path text : String) :
    Keeps (Order.Preimage diskOf (KeepsFiles []))
      (writeFile policy path text : ExceptT WriteError (StateM σ) Unit).run := by
  rw [writeFile]
  split
  · exact Keeps.compositional.of_pure _
  refine Keeps.compositional.bind_run (h.keepsFiles_makeRoom path) ?_
  intro _ s
  rw [run_bind]
  cases hclear : (clearWay policy path : ExceptT WriteError (StateM σ) Unit).run.run s with
  | mk result t =>
  obtain ⟨hdisk, hnothing⟩ := h.run_clearWay_of_noOverwrite hkeep hclear
  cases result with
  | error e => exact .of_eq [] hdisk.symm
  | ok _ =>
      have hfree := hnothing rfl
      rw [← hdisk] at hfree
      have hwrite := h.writeText path text t
      cases hwritten : (FileSystem.writeText path text : StateM σ Bool).run t with
      | mk answer t' =>
      rw [hwritten] at hwrite
      dsimp only
      rw [run_bind, run_liftM, hwritten, Order.Preimage, ← hdisk]
      refine Disk.keepsFiles_of_nothing hfree hwrite ?_
      cases answer with
      | false => exact .inl rfl
      | true =>
          dsimp only
          rw [if_pos rfl, run_require_snd]
          exact (h.setMode path policy.accessRights t').imp_right fun hmode => ⟨_, hmode⟩

/-- Where files may not be overwritten, no file is lost by writing files, wherever that ends. -/
theorem keepsFiles_writeFiles {policy : WritePolicy} (hkeep : policy.noOverwrite = true)
    (files : List (String × String)) :
    Keeps (Order.Preimage diskOf (KeepsFiles []))
      (writeFiles policy files : StateM σ (List String × Except WriteError Unit)) :=
  Keeps.compositional.writeFiles (fun s => .of_eq [] (h.currentDirectory s))
    fun file _ => h.keepsFiles_writeFile hkeep file.1 file.2

end ActsOn

end FileSystem

/-- Whatever comes of an emission: a dry run has left the disk as it was; if files may not be
overwritten, every file is still there with its text and its access rights; and if the documents of
the schema cannot be generated, be it for a single module, the disk is as it was and no output was
recorded. -/
theorem Schema.emit_spares_files {σ : Type} [FileSystem (StateM σ)] {diskOf : σ → Disk}
    (h : FileSystem.ActsOn diskOf) {schema : Schema} {options : Options} {ds : Diagnostics}
    {emission : Emission} {s s' : σ}
    (hrun : (schema.emit options ds : StateM σ Emission).run s = (emission, s')) :
    (options.policy.dryRun = true → diskOf s' = diskOf s) ∧
      (options.policy.noOverwrite = true → ∀ place text mode,
        (diskOf s).at? place = some (.file text mode) →
          (diskOf s').at? place = some (.file text mode)) ∧
      ∀ e ds', (schema.generate options).run.run ds = (.error e, ds') →
        diskOf s' = diskOf s ∧ emission.recorded = [] := by
  rw [run_emit] at hrun
  split at hrun
  · cases hrun
    exact ⟨fun _ => rfl, fun _ _ _ _ hfile => hfile, fun _ _ _ => ⟨rfl, rfl⟩⟩
  split at hrun
  · cases hrun
    exact ⟨fun _ => rfl, fun _ _ _ _ hfile => hfile, fun _ _ _ => ⟨rfl, rfl⟩⟩
  · rename_i documents remarks hgenerate
    split at hrun
    rename_i recorded result left hfiles
    cases hrun
    refine ⟨?_, ?_, ?_⟩
    · intro hdry
      have hkept := h.keeps_disk_of_dryRun hdry (options.filesOf documents) s
      rw [hfiles] at hkept
      exact hkept.symm
    · intro hkeep place text mode hfile
      have hkept := h.keepsFiles_writeFiles hkeep (options.filesOf documents) s
      rw [hfiles] at hkept
      exact hkept.at?_eq place List.not_mem_nil text mode hfile
    · intro e ds' herror
      cases hgenerate.symm.trans herror

/-! ## A disk that fails -/

/-- On a disk by itself no action fails. -/
theorem Disk.actsOn : FileSystem.ActsOn fun disk : Disk => disk where
  currentDirectory _ := rfl
  status := by
    intro path disk found disk' h
    cases h
    exact ⟨rfl, .inr rfl⟩
  createDirectory path disk := by
    rw [Order.Preimage, Disk.run_createDirectory]
    exact .inr rfl
  writeText path text disk := by
    rw [Order.Preimage, Disk.run_writeText]
    exact .inr ⟨text, rfl⟩
  setMode path mode disk := by
    rw [Order.Preimage, Disk.run_setMode]
    exact .inr rfl

/-- A disk and a plan of what fails, with one entry for each action. An action without an entry is
done; a number says how many characters of a text are still written. -/
structure FaultyDisk where
  disk : Disk
  plan : List (Option Nat) := []

namespace FaultyDisk

/-- Takes an action, as it is done or as it fails. -/
def act {α : Type} (done : Disk → α × Disk) (failed : Nat → Disk → α × Disk) :
    StateM FaultyDisk α := fun s =>
  let outcome :=
    match s.plan.head?.join with
    | none => done s.disk
    | some count => failed count s.disk
  (outcome.1, ⟨outcome.2, s.plan.tail⟩)

instance : FileSystem (StateM FaultyDisk) where
  currentDirectory := act (fun d => (Disk.pathOf d.workPlace, d)) fun _ d => ("", d)
  status path := act (fun d => (d.status path, d)) fun _ d => (.unknown, d)
  readText path := act (fun d => (d.readText path, d)) fun _ d => (none, d)
  createDirectory path := act (·.createDirectory path) fun _ d => (false, d)
  remove path := act (·.remove path) fun _ d => (false, d)
  writeText path text := act (·.writeText path text) fun count d =>
    (false, (d.writeText path (.ofList (text.toList.take count))).2)
  setMode path mode := act (·.setMode path mode) fun _ d => (false, d)

theorem act_cases {α : Type} (done : Disk → α × Disk) (failed : Nat → Disk → α × Disk)
    (s : FaultyDisk) :
    (((act done failed).run s).1, ((act done failed).run s).2.disk) = done s.disk ∨
      ∃ count, (((act done failed).run s).1, ((act done failed).run s).2.disk) =
        failed count s.disk := by
  rw [show (act done failed).run s = act done failed s from rfl, act]
  cases s.plan.head?.join with
  | none => exact .inl rfl
  | some count => exact .inr ⟨count, rfl⟩

/-- What holds of an action that is done and of one that fails holds of every action. -/
theorem keeps_act {α : Type} {done : Disk → α × Disk} {failed : Nat → Disk → α × Disk}
    {R : Disk → Disk → Prop} (hdone : ∀ d, R d (done d).2)
    (hfailed : ∀ count d, R d (failed count d).2) :
    Keeps (Order.Preimage disk R) (act done failed) := by
  intro s
  rcases act_cases done failed s with h | ⟨count, h⟩
  · have hrun := hdone s.disk
    rwa [← h] at hrun
  · have hrun := hfailed count s.disk
    rwa [← h] at hrun

theorem actsOn : FileSystem.ActsOn disk where
  currentDirectory := keeps_act (fun _ => rfl) fun _ _ => rfl
  status := by
    intro path s found s' h
    have hcases := act_cases (fun d => (d.status path, d)) (fun _ d => (.unknown, d)) s
    rw [show (act _ _).run s = (found, s') from h] at hcases
    rcases hcases with hdone | ⟨count, hfailed⟩
    · obtain ⟨rfl, hdisk⟩ := Prod.mk.inj hdone
      exact ⟨hdisk, .inr rfl⟩
    · obtain ⟨rfl, hdisk⟩ := Prod.mk.inj hfailed
      exact ⟨hdisk, .inl rfl⟩
  createDirectory path := keeps_act (fun _ => .inr rfl) fun _ _ => .inl rfl
  writeText path text := keeps_act (fun _ => .inr ⟨_, rfl⟩) fun _ _ => .inr ⟨_, rfl⟩
  setMode path mode := keeps_act (fun _ => .inr rfl) fun _ _ => .inl rfl

end FaultyDisk

/-- The schema of the note module and of one that has no module class. -/
def halfSchema : Schema :=
  { noteSchema with modules := [noteModule, { name := "n" }] }

/-- The first module is written as a document, and then the second one is refused. -/
theorem generate_halfSchema : ∃ ds,
    (halfSchema.generate { outDir := "out" }).run.run [] = (.error (.noModuleClass "n"), ds) := by
  obtain ⟨document, ds, hgenerate, -⟩ := generate_noteSchema
  obtain ⟨claim, first, rest, members, -, hclaim, hspace, hwritten, -⟩ :=
    Schema.run_documentsFrom_cons_eq_ok_iff.1 (Schema.run_generate_eq_ok_iff.1 hgenerate).2
  have hdocument : noteModule.document
      (Module.target noteSchema.bindings { outDir := "out" } claim.space)
      (noteModule.header { outDir := "out" }) = .ok first := by
    rw [← hspace]
    exact Module.document_eq_ok_iff.2 ⟨members, hwritten.members_eq, hwritten.document_eq⟩
  have hrefused : Module.claim { name := "n" } noteSchema.bindings { outDir := "out" } [claim] =
      .error (.noModuleClass "n") := rfl
  rw [Schema.generate, if_neg (by decide), halfSchema, Schema.run_documentsFrom_cons]
  simp only [hclaim, hdocument, List.nil_append, Schema.run_documentsFrom_cons, hrefused]
  exact ⟨_, rfl⟩

/-- An emission on the disk with the old file, where the second action fails. -/
def faultyEmission (schema : Schema) (policy : WritePolicy) : Emission × FaultyDisk :=
  (schema.emit { outDir := "out", policy } [] : StateM FaultyDisk Emission).run
    ⟨noteDisk, [none, some 3]⟩

/-- On the disk where an action fails: a dry run, a run that meets the old file, and a run that is
refused at the second module; and the run that meets the old file when nothing fails. -/
theorem Schema.emit_spares_files_noteDisk :
    (faultyEmission noteSchema { dryRun := true }).2.disk = noteDisk ∧
      (faultyEmission noteSchema { noOverwrite := true }).2.disk.at? ["work", "out", "m_pkl.py"] =
        some (.file "old" 0o444) ∧
      (faultyEmission halfSchema {}).2.disk = noteDisk ∧
      (faultyEmission halfSchema {}).1.recorded = [] ∧
      ((noteSchema.emit { outDir := "out", policy := { noOverwrite := true } } [] :
        StateM Disk Emission).run noteDisk).2.at? ["work", "out", "m_pkl.py"] =
          some (.file "old" 0o444) := by
  have hrun (schema : Schema) (policy : WritePolicy) :
      (schema.emit { outDir := "out", policy } [] : StateM FaultyDisk Emission).run
        ⟨noteDisk, [none, some 3]⟩ =
          ((faultyEmission schema policy).1, (faultyEmission schema policy).2) := rfl
  obtain ⟨ds, hfails⟩ := generate_halfSchema
  obtain ⟨hdisk, hrecorded⟩ :=
    (Schema.emit_spares_files FaultyDisk.actsOn (hrun halfSchema {})).2.2 _ ds hfails
  refine ⟨?_, ?_, hdisk, hrecorded, ?_⟩
  · exact (Schema.emit_spares_files FaultyDisk.actsOn (hrun noteSchema _)).1 rfl
  · exact (Schema.emit_spares_files FaultyDisk.actsOn (hrun noteSchema _)).2.1 rfl _ _ _ rfl
  · exact (Schema.emit_spares_files Disk.actsOn (Prod.eta _).symm).2.1 rfl _ _ _ rfl

end PklBindings
