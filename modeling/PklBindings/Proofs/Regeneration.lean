import PklBindings.Proofs.MirroredRuns
import PklBindings.Proofs.RewrittenFiles

/-!
# Emitting a schema again

After an emission that succeeds, another one of the same schema under the same options succeeds as
well and changes nothing (`Schema.emit_again`). It finds the files of the first one in its way. They
may be read-only, and the file system may refuse to write to such files (`GuardedDisk`): a file is
replaced and not written to.
-/

namespace PklBindings

open DiskPath (slash placeFrom)
open Disk (SameTree)

namespace Schema

variable {schema : Schema} {options : Options} {ds ds' : Diagnostics}

/-- What is generated does not depend on the remarks that were made before, and the same remarks
are made again. -/
theorem exists_remarks_of_generate {documents : List Document}
    (h : (schema.generate options).run.run ds = (.ok documents, ds')) :
    ∃ remarks, ds' = ds ++ remarks ∧ ∀ earlier : Diagnostics,
      (schema.generate options).run.run earlier = (.ok documents, earlier ++ remarks) := by
  obtain ⟨hsuffix, hdocuments, hspaces, hfiles, hremarks⟩ :=
    run_generate_eq_ok_iff_ownDocument.1 h
  refine ⟨_, hremarks, ?_⟩
  intro earlier
  exact run_generate_eq_ok_iff_ownDocument.2 ⟨hsuffix, hdocuments, hspaces, hfiles, rfl⟩

/-- On a disk by itself: what was emitted is there, and it is emitted again. -/
theorem exists_run_emit_again {disk disk' : Disk} {emission : Emission}
    (hdry : options.policy.dryRun = false) (hkeep : options.policy.noOverwrite = false)
    (hnul : '\x00' ∉ options.outDir.toList)
    (hsuffix : '/' ∉ options.fileSuffix.toList ∧ '\x00' ∉ options.fileSuffix.toList)
    (hrun : (schema.emit options ds : StateM Disk Emission).run disk = (emission, disk'))
    (hdone : emission.result = .ok ()) :
    ∃ documents remarks,
      (schema.generate options).run.run ds = (.ok documents, emission.diagnostics) ∧
      emission.diagnostics = ds ++ remarks ∧
      (∀ d ∈ documents, ∃ place, disk'.find (DiskPath.join options.outDir d.fileName) =
        .entry place (.file d.text options.policy.accessRights)) ∧
      ∀ earlier : Diagnostics, ∃ disk'',
        (schema.emit options earlier : StateM Disk Emission).run disk' =
          ({ emission with diagnostics := earlier ++ remarks }, disk'') ∧
        SameTree disk' disk'' := by
  obtain ⟨houtDir, documents, hgenerate, hwrite⟩ := exists_writeFiles_of_emit hrun hdone
  obtain ⟨remarks, hremarks, hagain⟩ := exists_remarks_of_generate hgenerate
  have hplain := isPlain_of_generate hsuffix hgenerate
  have hnodup := fileNames_nodup_of_generate hgenerate
  obtain ⟨stem, hstem, hjoin, hfiles⟩ := Options.exists_filesOf_eq houtDir hnul hplain
  have hkept := Spares.writeFiles options.policy (options.filesOf documents) disk rfl
  rw [hwrite] at hkept
  rw [hfiles] at hwrite
  -- The first run has left every file in its place, so the second one finds them all.
  obtain ⟨hrecorded, hall⟩ := Disk.files_of_writeFiles hdry hstem hplain hnodup hwrite
  rw [← hkept.workPlace_eq] at hrecorded hall
  refine ⟨documents, remarks, hgenerate, hremarks, ?_, ?_⟩
  · intro d hd
    obtain ⟨hopens, hfile⟩ := hall d hd
    refine ⟨placeFrom disk'.workPlace (slash stem d.fileName), ?_⟩
    rw [hjoin d hd, hopens.find_eq hstem (hplain d hd), hfile]
    rfl
  · intro earlier
    obtain ⟨disk'', hwrite', hsame⟩ := Disk.writeFiles_again hdry hkeep hstem hplain hall
    refine ⟨disk'', ?_, hsame⟩
    rw [run_emit, if_neg houtDir, hagain]
    dsimp only
    rw [hfiles, hwrite']
    dsimp only
    rw [← hrecorded, hdone]
    rfl

/-- When an emission has succeeded on a file system without links on which no action fails but
writing to a file that is there, every document is in its file. Emitting the schema again under the
same options succeeds, records the same outputs and makes the same remarks. At every place of the
tree there is in the end what the first emission had left there: nothing, a directory, or a file
with this text and these access rights. -/
theorem emit_again {σ : Type} [FileSystem (StateM σ)] {diskOf : σ → Disk}
    (h : FileSystem.Serves diskOf) {s s' : σ} {emission : Emission}
    (hdry : options.policy.dryRun = false) (hkeep : options.policy.noOverwrite = false)
    (hnul : '\x00' ∉ options.outDir.toList)
    (hsuffix : '/' ∉ options.fileSuffix.toList ∧ '\x00' ∉ options.fileSuffix.toList)
    (hrun : (schema.emit options ds : StateM σ Emission).run s = (emission, s'))
    (hdone : emission.result = .ok ()) (earlier : Diagnostics) :
    ∃ documents remarks emission' s'',
      (schema.generate options).run.run ds = (.ok documents, emission.diagnostics) ∧
      emission.diagnostics = ds ++ remarks ∧
      (∀ d ∈ documents, ∃ place, (diskOf s').find (DiskPath.join options.outDir d.fileName) =
        .entry place (.file d.text options.policy.accessRights)) ∧
      (schema.emit options earlier : StateM σ Emission).run s' = (emission', s'') ∧
      emission'.result = .ok () ∧
      emission'.recorded = emission.recorded ∧
      emission'.diagnostics = earlier ++ remarks ∧
      SameTree (diskOf s') (diskOf s'') := by
  have hfirst := (mirrorsAt_iff hrun).1 (h.emit schema options ds s)
  obtain ⟨documents, remarks, hgenerate, hremarks, hthere, hagain⟩ :=
    exists_run_emit_again hdry hkeep hnul hsuffix hfirst hdone
  obtain ⟨disk'', hsecond, hsame⟩ := hagain earlier
  cases hrun' : (schema.emit options earlier : StateM σ Emission).run s' with
  | mk emission' s'' =>
  have hmirrored := (mirrorsAt_iff hrun').1 (h.emit schema options earlier s')
  obtain ⟨rfl, rfl⟩ := Prod.mk.inj (hsecond.symm.trans hmirrored)
  exact ⟨documents, remarks, _, s'', hgenerate, hremarks, hthere, rfl, hdone, rfl, rfl, hsame⟩

end Schema

/-! ## A disk with read-only files -/

namespace Disk

/-- Whether a file stands in the way of a text, which its owner may not write to. -/
def refuses (disk : Disk) (path : String) : Bool :=
  match disk.find path with
  | .entry _ (.file _ mode) => mode &&& 0o200 = 0
  | _ => false

/-- Gives a file a text, if its owner may write to it. -/
def writeGuarded (disk : Disk) (path text : String) : Bool × Disk :=
  if disk.refuses path then (false, disk) else disk.writeText path text

theorem writeGuarded_of_status_ne_file {disk : Disk} {path : String}
    (h : disk.status path ≠ .file) (text : String) :
    disk.writeGuarded path text = disk.writeText path text := by
  have haccepts : disk.refuses path = false := by
    rw [refuses]
    split
    · rename_i place text mode hfind
      exact absurd (status_eq_file_iff.2 ⟨place, text, mode, hfind⟩) h
    · rfl
  rw [writeGuarded, haccepts]
  rfl

end Disk

/-- A disk on which read-only files refuse to be written to. -/
structure GuardedDisk where
  disk : Disk

namespace GuardedDisk

/-- Takes an action on the disk. -/
def act {α : Type} (action : Disk → α × Disk) : StateM GuardedDisk α := fun s =>
  (action s.disk).map id GuardedDisk.mk

instance : FileSystem (StateM GuardedDisk) where
  currentDirectory := act fun d => (Disk.pathOf d.workPlace, d)
  status path := act fun d => (d.status path, d)
  readText path := act fun d => (d.readText path, d)
  createDirectory path := act (·.createDirectory path)
  remove path := act (·.remove path)
  writeText path text := act (·.writeGuarded path text)
  setMode path mode := act (·.setMode path mode)

theorem serves : FileSystem.Serves disk where
  currentDirectory _ := rfl
  status _ _ := rfl
  createDirectory _ _ := rfl
  remove _ _ := rfl
  writeText _ text _ hstatus := Disk.writeGuarded_of_status_ne_file hstatus text
  setMode _ _ _ := rfl

end GuardedDisk

/-- The old file is read-only, and so is the one that replaces it; it refuses to be written to and
is replaced again. -/
theorem Schema.emit_again_noteDisk :
    ∃ emission s', (noteSchema.emit { outDir := "out" } [] : StateM GuardedDisk Emission).run
        ⟨noteDisk⟩ = (emission, s') ∧
      emission.result = .ok () ∧
      s'.disk.refuses "out/m_pkl.py" = true ∧
      ∃ documents remarks emission' s'',
        (noteSchema.generate { outDir := "out" }).run.run [] =
          (.ok documents, emission.diagnostics) ∧
        emission.diagnostics = [] ++ remarks ∧
        (∀ d ∈ documents, ∃ place, s'.disk.find (DiskPath.join "out" d.fileName) =
          .entry place (.file d.text (0o444 &&& 0o777))) ∧
        (noteSchema.emit { outDir := "out" } emission.diagnostics :
          StateM GuardedDisk Emission).run s' = (emission', s'') ∧
        emission'.result = .ok () ∧
        emission'.recorded = emission.recorded ∧
        emission'.diagnostics = emission.diagnostics ++ remarks ∧
        SameTree s'.disk s''.disk := by
  obtain ⟨document, ds, hgenerate, hfile⟩ := generate_noteSchema
  obtain ⟨emission, s', hrun, hdone, hrefuses⟩ : ∃ emission s',
      (noteSchema.emit { outDir := "out" } [] : StateM GuardedDisk Emission).run ⟨noteDisk⟩ =
        (emission, s') ∧ emission.result = .ok () ∧ s'.disk.refuses "out/m_pkl.py" = true := by
    rw [Schema.emit, if_neg (by decide), hgenerate]
    dsimp only
    rw [Options.filesOf, List.map_singleton, hfile]
    exact ⟨_, _, rfl, rfl, rfl⟩
  exact ⟨emission, s', hrun, hdone, hrefuses, Schema.emit_again GuardedDisk.serves rfl rfl
    (by decide) ⟨by decide, by decide⟩ hrun hdone emission.diagnostics⟩

end PklBindings
