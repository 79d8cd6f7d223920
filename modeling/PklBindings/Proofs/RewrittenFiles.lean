import PklBindings.Proofs.OneTextApart
import PklBindings.Proofs.WrittenFiles

/-!
# Files that are written again

A file is replaced by removing it, writing it anew and setting its access rights. Where it stood
before with the same text and the same access rights, the tree is the same in the end
(`Disk.writeFile_again`), though another one in between. So a run over files that are all there
finds every directory, replaces every file, and leaves the tree as it was
(`Disk.writeFiles_again`).
-/

namespace PklBindings

open DiskPath (IsPlain slash placeFrom)
open FileSystem

theorem AlikeAt.trans {hidden : Prop} {e e' e'' : Option DiskEntry} (h : AlikeAt hidden e e')
    (h' : AlikeAt hidden e' e'') : AlikeAt hidden e e'' := by
  cases h with
  | nothing => exact h'
  | directory inner inner' =>
      obtain ⟨inner'', rfl⟩ := h'.exists_directory
      exact .directory inner inner''
  | file mode same =>
      cases h' with
      | file _ same' => exact .file mode (same.elim .inl fun heq => heq ▸ same')

/-- The same stands everywhere on two disks: nothing, a directory, or a file with one text and one
mode. Only the order in which a directory is listed may differ. -/
structure Disk.SameTree (disk disk' : Disk) : Prop where
  workPlace_eq : disk'.workPlace = disk.workPlace
  alike : ∀ place, AlikeAt False (disk.at? place) (disk'.at? place)

/-- The same stands on two disks everywhere but at a place and below it. -/
structure Disk.SameBeside (place : Place) (disk disk' : Disk) : Prop where
  workPlace_eq : disk'.workPlace = disk.workPlace
  alike : ∀ other, ¬ place <+: other → AlikeAt False (disk.at? other) (disk'.at? other)

namespace Disk

variable {disk disk' disk'' : Disk} {place : Place} {directory name text : String} {mode : UInt32}

namespace SameTree

theorem refl (disk : Disk) : SameTree disk disk :=
  ⟨rfl, fun _ => .refl _ _⟩

theorem trans (h : SameTree disk disk') (h' : SameTree disk' disk'') : SameTree disk disk'' :=
  ⟨h'.workPlace_eq.trans h.workPlace_eq, fun place => (h.alike place).trans (h'.alike place)⟩

theorem at?_of_file (h : SameTree disk disk') (hfile : disk.at? place = some (.file text mode)) :
    disk'.at? place = some (.file text mode) := by
  have halike := h.alike place
  rw [hfile] at halike
  generalize disk'.at? place = e at halike
  cases halike with
  | file mode same => rw [same.resolve_left not_false]

theorem opens (h : SameTree disk disk') (hopens : disk.Opens directory name) :
    disk'.Opens directory name := by
  refine hopens.mono h.workPlace_eq ?_
  intro other inner hother
  have halike := h.alike other
  rw [hother] at halike
  exact halike.exists_directory

end SameTree

namespace SameBeside

theorem trans (h : SameBeside place disk disk') (h' : SameBeside place disk' disk'') :
    SameBeside place disk disk'' :=
  ⟨h'.workPlace_eq.trans h.workPlace_eq,
    fun other hother => (h.alike other hother).trans (h'.alike other hother)⟩

theorem alter {change : Folder → String → Folder} (hlocal : Folder.IsLocal change) (disk : Disk)
    (place : Place) :
    SameBeside place disk { disk with root := disk.root.alter change place } := by
  refine ⟨rfl, ?_⟩
  intro other hother
  rw [Disk.at?, Disk.at?]
  rcases Folder.at?_alter_or hlocal hother with hkept | ⟨old, new, hold, hnew⟩
  · rw [hkept]
    exact .refl _ _
  · rw [hold, hnew]
    exact .directory old new

/-- No way to a directory leads by a file, so it can be walked whatever becomes of the file. -/
theorem opens (h : SameBeside place disk disk') (hfile : disk.at? place = some (.file text mode))
    (hopens : disk.Opens directory name) : disk'.Opens directory name := by
  refine hopens.mono h.workPlace_eq ?_
  intro other inner hother
  have hbeside : ¬ place <+: other := by
    intro hbelow
    obtain rfl := Folder.isTip_of_file hfile other _ hbelow hother
    cases hfile.symm.trans hother
  have halike := h.alike other hbeside
  rw [hother] at halike
  exact halike.exists_directory

/-- When the file at the place is the same in the end, so is the tree. -/
theorem sameTree (h : SameBeside place disk disk')
    (hfile : disk.at? place = some (.file text mode))
    (hfile' : disk'.at? place = some (.file text mode)) : SameTree disk disk' := by
  refine ⟨h.workPlace_eq, ?_⟩
  intro other
  by_cases hbelow : place <+: other
  · by_cases heq : place = other
    · subst heq
      rw [hfile, hfile']
      exact .refl _ _
    · -- Nothing is below a file.
      rw [Disk.at?, Disk.at?, (Folder.isTip_of_file hfile).at?_eq_none hbelow heq,
        (Folder.isTip_of_file hfile').at?_eq_none hbelow heq]
      exact .nothing
  · exact h.alike other hbelow

end SameBeside

/-! ## One file -/

/-- Where names can be looked up in a directory, there is room for a file. -/
theorem Opens.run_makeRoom (h : disk.Opens directory name)
    (hdirectory : '\x00' ∉ directory.toList) (hname : IsPlain name) :
    (makeRoom (slash directory name) : ExceptT WriteError (StateM Disk) Unit).run.run disk =
      (.ok (), disk) := by
  have hstatus := h.status_parent hdirectory hname
  rw [makeRoom]
  split
  · rfl
  · refine run_require_eq_ok_iff.2 ?_
    rw [createDirectories, stateM_run_bind, run_status, hstatus]
    rfl

/-- At a free name in a directory a file can be created and given access rights. -/
theorem Opens.exists_created (h : disk.Opens directory name)
    (hdirectory : '\x00' ∉ directory.toList) (hname : IsPlain name)
    (hnone : disk.at? (placeFrom disk.workPlace (slash directory name)) = none) (text : String)
    (mode : UInt32) :
    ∃ written disk', disk.writeText (slash directory name) text = (true, written) ∧
      written.setMode (slash directory name) mode = (true, disk') ∧
      SameBeside (placeFrom disk.workPlace (slash directory name)) disk disk' ∧
      disk'.at? (placeFrom disk.workPlace (slash directory name)) = some (.file text mode) := by
  have hfind := h.find_eq hdirectory hname
  rw [hnone] at hfind
  obtain ⟨-, -, hroom⟩ := eq_of_find_eq_free hfind
  generalize hplace : placeFrom disk.workPlace (slash directory name) = place at *
  have hwrite : disk.writeText (slash directory name) text =
      (true, disk.insert place (.file text defaultMode)) := by
    rw [writeText, hfind, DiskPath.untilNul_slash hdirectory hname,
      DiskPath.endsWithSlash_slash hname.ne_empty hname.slash_notMem]
    rfl
  have hbeside : SameBeside place disk (disk.insert place (.file text defaultMode)) :=
    .alter (Folder.isLocal_put _) disk place
  have hnew := at?_insert (.file text defaultMode) hroom
  have hopens : (disk.insert place (.file text defaultMode)).Opens directory name :=
    h.insert _ (by simp [hnone])
  generalize disk.insert place (.file text defaultMode) = written at *
  have hmode : written.setMode (slash directory name) mode =
      (true, written.insert place (.file text mode)) := by
    rw [setMode, hopens.find_eq hdirectory hname, hbeside.workPlace_eq, hplace, hnew]
    rfl
  exact ⟨written, _, hwrite, hmode, hbeside.trans (.alter (Folder.isLocal_put _) written place),
    at?_insert _ (Folder.hasRoom_of_file hnew)⟩

/-- A file that is there is replaced by itself, by way of a disk without it. -/
theorem writeFile_again {policy : WritePolicy} (hdry : policy.dryRun = false)
    (hkeep : policy.noOverwrite = false) (hdirectory : '\x00' ∉ directory.toList)
    (hname : IsPlain name) (hopens : disk.Opens directory name)
    (hfile : disk.at? (placeFrom disk.workPlace (slash directory name)) =
      some (.file text policy.accessRights)) :
    ∃ disk', (writeFile policy (slash directory name) text :
        ExceptT WriteError (StateM Disk) Unit).run.run disk = (.ok (), disk') ∧
      SameTree disk disk' := by
  have hfind := hopens.find_eq hdirectory hname
  rw [hfile] at hfind
  have hclear : (clearWay policy (slash directory name) :
      ExceptT WriteError (StateM Disk) Unit).run.run disk =
        (.ok (), disk.erase (placeFrom disk.workPlace (slash directory name))) :=
    run_clearWay_eq_ok_iff.2 (.inr ⟨.inl (status_eq_file_iff.2 ⟨_, _, _, hfind⟩), hkeep,
      by rw [remove, hfind]; rfl⟩)
  have hne : placeFrom disk.workPlace (slash directory name) ≠ [] := by
    intro hroot
    rw [hroot] at hfile
    cases hfile
  -- Once the file is taken away, its name is free, and all else is as before.
  have herased : SameBeside (placeFrom disk.workPlace (slash directory name)) disk
      (disk.erase (placeFrom disk.workPlace (slash directory name))) :=
    .alter Folder.isLocal_drop disk _
  have hnone : (disk.erase (placeFrom disk.workPlace (slash directory name))).at?
      (placeFrom disk.workPlace (slash directory name)) = none :=
    Folder.at?_alter_drop_self hne hfile
  generalize disk.erase (placeFrom disk.workPlace (slash directory name)) = erased at *
  have hopens' := herased.opens hfile hopens
  rw [← herased.workPlace_eq] at hnone
  obtain ⟨written, disk', hwrite, hmode, hcreated, hfile'⟩ :=
    hopens'.exists_created hdirectory hname hnone text policy.accessRights
  rw [herased.workPlace_eq] at hcreated hfile'
  refine ⟨disk', ?_, (herased.trans hcreated).sameTree hfile hfile'⟩
  rw [writeFile, hdry]
  refine run_bind_eq_ok_iff.2 ⟨(), disk, hopens.run_makeRoom hdirectory hname, ?_⟩
  refine run_bind_eq_ok_iff.2 ⟨(), erased, hclear, ?_⟩
  refine run_bind_eq_ok_iff.2 ⟨true, written, run_liftM_eq_ok_iff.2 hwrite, ?_⟩
  exact run_require_eq_ok_iff.2 hmode

/-! ## Files one after another -/

/-- Files that are all there are all replaced by themselves. -/
theorem writeFiles_again {policy : WritePolicy} (hdry : policy.dryRun = false)
    (hkeep : policy.noOverwrite = false) (hdirectory : '\x00' ∉ directory.toList) {α : Type}
    {nameOf textOf : α → String} {files : List α} (hplain : ∀ a ∈ files, IsPlain (nameOf a))
    (hfiles : ∀ a ∈ files, disk.Opens directory (nameOf a) ∧
      disk.at? (placeFrom disk.workPlace (slash directory (nameOf a))) =
        some (.file (textOf a) policy.accessRights)) :
    ∃ disk', (writeFiles policy (files.map fun a => (slash directory (nameOf a), textOf a)) :
        StateM Disk (List String × Except WriteError Unit)).run disk =
          ((files.map fun a => DiskPath.resolve (pathOf disk.workPlace)
            (slash directory (nameOf a)), .ok ()), disk') ∧
      SameTree disk disk' := by
  induction files generalizing disk with
  | nil => exact ⟨disk, rfl, .refl disk⟩
  | cons a files ih =>
      rw [List.forall_mem_cons] at hplain hfiles
      obtain ⟨⟨hopens, hfile⟩, hothers⟩ := hfiles
      obtain ⟨t, hfirst, hsame⟩ := writeFile_again hdry hkeep hdirectory hplain.1 hopens hfile
      -- The other files are still there.
      have hothers' : ∀ other ∈ files, t.Opens directory (nameOf other) ∧
          t.at? (placeFrom t.workPlace (slash directory (nameOf other))) =
            some (.file (textOf other) policy.accessRights) := by
        intro other hother
        obtain ⟨hopens, hfile⟩ := hothers other hother
        rw [hsame.workPlace_eq]
        exact ⟨hsame.opens hopens, hsame.at?_of_file hfile⟩
      obtain ⟨disk', hrun, hsame'⟩ := ih hplain.2 hothers'
      refine ⟨disk', run_writeFiles_cons_eq_ok_iff.2 ⟨t, _, ?_, hfirst, hrun⟩, hsame.trans hsame'⟩
      rw [List.map_cons, hsame.workPlace_eq]

end Disk

end PklBindings
