import PklBindings.Proofs.DiskFrame
import PklBindings.Proofs.Results

/-!
# Files that have been written

After a file was written it stands on the disk with its text and its access rights
(`Disk.file_of_writeFile`). Files with different names in one directory do not get in the way of
each other, so after a run they are all there (`Disk.files_of_writeFiles`).
-/

namespace PklBindings

open DiskPath (IsPlain slash placeFrom wayFrom followDots)
open FileSystem

namespace Disk

variable {disk disk' : Disk} {directory name path text : String} {mode : UInt32}

/-! ## One file -/

theorem at?_of_writeText (h : disk.writeText path text = (true, disk')) :
    ∃ mode, disk'.at? (placeFrom disk.workPlace path) = some (.file text mode) := by
  rcases writeText_cases disk path text with h' | ⟨-, hroom, mode, h'⟩
  · cases h'.symm.trans h
  · cases h'.symm.trans h
    exact ⟨mode, at?_insert _ hroom⟩

/-- Where a file stands, setting its access rights puts the file there anew. -/
theorem setMode_eq_true {old : UInt32} (h : disk.setMode path mode = (true, disk'))
    (hfile : disk.at? (placeFrom disk.workPlace path) = some (.file text old)) :
    (disk.find path).Leads ∧
      disk' = disk.insert (placeFrom disk.workPlace path) (.file text mode) := by
  rcases setMode_cases disk path mode with
    h' | ⟨⟨inner, hinner⟩, -⟩ | ⟨hleads, text', old', hat, h'⟩
  · cases h'.symm.trans h
  · cases hinner.symm.trans hfile
  · cases hat.symm.trans hfile
    cases h'.symm.trans h
    exact ⟨hleads, rfl⟩

/-- A change of a file leaves the ways to directories open. -/
theorem Opens.insert {place : Place} (h : disk.Opens directory name) (entry : DiskEntry)
    (hplace : ∀ inner, disk.at? place ≠ some (.directory inner)) :
    (disk.insert place entry).Opens directory name := by
  refine h.mono rfl ?_
  intro other inner hother
  exact exists_directory_insert entry hplace hother

/-- The way of a file is clear when nothing is found there, or when what is found is removed. -/
theorem run_clearWay_eq_ok_iff {policy : WritePolicy} :
    (clearWay policy path : ExceptT WriteError (StateM Disk) Unit).run.run disk =
        (.ok (), disk') ↔
      disk.status path = .nothing ∧ disk' = disk ∨
        (disk.status path = .file ∨ disk.status path = .directory) ∧
          policy.noOverwrite = false ∧ disk.remove path = (true, disk') := by
  have hreplace : (do
        if policy.noOverwrite then throw (.inTheWay path)
        unless ← (FileSystem.remove path : StateM Disk Bool) do throw (.notRemoved path) :
        ExceptT WriteError (StateM Disk) Unit).run.run disk = (.ok (), disk') ↔
      policy.noOverwrite = false ∧ disk.remove path = (true, disk') := by
    cases policy.noOverwrite with
    | true =>
        constructor
        · intro h
          cases h
        · rintro ⟨h, -⟩
          cases h
    | false => exact run_require_eq_ok_iff.trans (and_iff_right rfl).symm
  rw [clearWay, run_bind, run_liftM, run_status]
  cases disk.status path with
  | nothing =>
      constructor
      · intro h
        cases h
        exact .inl ⟨rfl, rfl⟩
      · rintro (⟨-, rfl⟩ | ⟨h | h, -⟩)
        · rfl
        · cases h
        · cases h
  | unknown =>
      constructor
      · intro h
        cases h
      · rintro (⟨h, -⟩ | ⟨h | h, -⟩) <;> cases h
  | file => simpa using hreplace
  | directory => simpa using hreplace

/-- Once the way of a file is clear, no file is in it. -/
theorem status_ne_file_of_clearWay {policy : WritePolicy}
    (h : (clearWay policy path : ExceptT WriteError (StateM Disk) Unit).run.run disk =
      (.ok (), disk')) : disk'.status path ≠ .file := by
  rcases run_clearWay_eq_ok_iff.1 h with ⟨hnothing, rfl⟩ | ⟨-, -, hremove⟩
  · rw [hnothing]
    simp
  · exact status_ne_file_of_remove hremove

/-- The file is written in the end, behind all that is done to make room for it. -/
theorem exists_writeText_of_writeFile {policy : WritePolicy} (hdry : policy.dryRun = false)
    (h : (writeFile policy path text : ExceptT WriteError (StateM Disk) Unit).run.run disk =
      (.ok (), disk')) :
    ∃ ready written : Disk, ready.workPlace = disk.workPlace ∧
      ready.writeText path text = (true, written) ∧
      written.setMode path policy.accessRights = (true, disk') := by
  rw [writeFile, hdry] at h
  obtain ⟨_, room, hroom, h⟩ := run_bind_eq_ok_iff.1 h
  obtain ⟨_, ready, hready, h⟩ := run_bind_eq_ok_iff.1 h
  obtain ⟨written, t, hwritten, h⟩ := run_bind_eq_ok_iff.1 h
  -- What goes before never changes where relative paths are taken from.
  have hroomKept := Spares.makeRoom path disk rfl
  have hreadyKept := Spares.clearWay policy path room rfl
  rw [hroom] at hroomKept
  rw [hready] at hreadyKept
  rw [run_liftM_eq_ok_iff] at hwritten
  cases written with
  | false => cases h
  | true =>
      refine ⟨ready, t, hreadyKept.workPlace_eq.trans hroomKept.workPlace_eq, hwritten, ?_⟩
      exact run_require_eq_ok_iff.1 h

/-- What is done last is that the file gets its access rights, where it stands by then. -/
theorem exists_insert_of_writeFile {policy : WritePolicy} (hdry : policy.dryRun = false)
    (h : (writeFile policy path text : ExceptT WriteError (StateM Disk) Unit).run.run disk =
      (.ok (), disk')) :
    ∃ written : Disk, written.workPlace = disk.workPlace ∧ (written.find path).Leads ∧
      (∃ mode, written.at? (placeFrom disk.workPlace path) = some (.file text mode)) ∧
      disk' = written.insert (placeFrom disk.workPlace path) (.file text policy.accessRights) := by
  obtain ⟨ready, written, hwork, hwrite, hmode⟩ := exists_writeText_of_writeFile hdry h
  obtain ⟨mode, hfile⟩ := at?_of_writeText hwrite
  have hkept := sameFiles_writeText ready path text
  rw [hwrite] at hkept
  rw [← hkept.workPlace_eq] at hfile
  -- The access rights were set, so the way to the file was open.
  obtain ⟨hleads, hinsert⟩ := setMode_eq_true hmode hfile
  have hwork' := hkept.workPlace_eq.trans hwork
  rw [hwork'] at hfile hinsert
  exact ⟨written, hwork', hleads, ⟨mode, hfile⟩, hinsert⟩

theorem at?_of_writeFile {policy : WritePolicy} (hdry : policy.dryRun = false)
    (h : (writeFile policy path text : ExceptT WriteError (StateM Disk) Unit).run.run disk =
      (.ok (), disk')) :
    disk'.at? (placeFrom disk.workPlace path) = some (.file text policy.accessRights) := by
  obtain ⟨written, -, -, ⟨mode, hfile⟩, rfl⟩ := exists_insert_of_writeFile hdry h
  exact at?_insert _ (Folder.hasRoom_of_file hfile)

/-- The file stands where it was written, and the way to it is open. -/
theorem file_of_writeFile {policy : WritePolicy} (hdry : policy.dryRun = false)
    (hdirectory : '\x00' ∉ directory.toList) (hname : IsPlain name)
    (h : (writeFile policy (slash directory name) text :
      ExceptT WriteError (StateM Disk) Unit).run.run disk = (.ok (), disk')) :
    disk'.Opens directory name ∧
      disk'.at? (placeFrom disk.workPlace (slash directory name)) =
        some (.file text policy.accessRights) := by
  refine ⟨?_, at?_of_writeFile hdry h⟩
  -- The file was put where a file had been, so the way to it still is open.
  obtain ⟨written, hwork, hleads, ⟨mode, hfile⟩, rfl⟩ := exists_insert_of_writeFile hdry h
  refine (opens_of_leads hdirectory hname hleads).insert _ ?_
  intro inner
  simp [hfile]

/-! ## Files one after another -/

theorem run_writeFiles_cons_eq_ok_iff {policy : WritePolicy} {files : List (String × String)}
    {recorded : List String} :
    (writeFiles policy ((path, text) :: files) :
        StateM Disk (List String × Except WriteError Unit)).run disk =
        ((recorded, .ok ()), disk') ↔
      ∃ t others, recorded = DiskPath.resolve (pathOf disk.workPlace) path :: others ∧
        (writeFile policy path text : ExceptT WriteError (StateM Disk) Unit).run.run disk =
          (.ok (), t) ∧
        (writeFiles policy files : StateM Disk (List String × Except WriteError Unit)).run t =
          ((others, .ok ()), disk') := by
  have hplace : (recordedPath path : StateM Disk String).run disk =
      (DiskPath.resolve (pathOf disk.workPlace) path, disk) := rfl
  rw [writeFiles, stateM_run_bind, hplace, stateM_run_bind]
  cases hfirst : (writeFile policy path text :
    ExceptT WriteError (StateM Disk) Unit).run.run disk with
  | mk result t =>
  cases result with
  | error e =>
      constructor
      · intro h
        cases h
      · rintro ⟨_, _, -, h, -⟩
        cases h
  | ok _ =>
      dsimp only
      rw [stateM_run_bind]
      cases hothers : (writeFiles policy files :
        StateM Disk (List String × Except WriteError Unit)).run t with
      | mk answer t' =>
      obtain ⟨others, answer⟩ := answer
      constructor
      · intro h
        cases h
        exact ⟨t, others, rfl, rfl, hothers⟩
      · rintro ⟨_, _, rfl, h, h'⟩
        cases h
        rw [hothers] at h'
        cases h'
        rfl

/-- Every file is recorded by its absolute path. -/
theorem recorded_of_writeFiles {policy : WritePolicy} {files : List (String × String)}
    {recorded : List String}
    (h : (writeFiles policy files : StateM Disk (List String × Except WriteError Unit)).run disk =
      ((recorded, .ok ()), disk')) :
    recorded = files.map fun file => DiskPath.resolve (pathOf disk.workPlace) file.1 := by
  induction files generalizing disk recorded with
  | nil =>
      cases h
      rfl
  | cons file files ih =>
      obtain ⟨t, others, rfl, hfirst, hothers⟩ := run_writeFiles_cons_eq_ok_iff.1 h
      have hkept := Spares.writeFile policy file.1 file.2 disk rfl
      rw [hfirst] at hkept
      rw [List.map_cons, ih hothers, hkept.workPlace_eq]

/-- A dry run records the files and leaves the disk as it is. -/
theorem run_writeFiles_of_dryRun {policy : WritePolicy} (hdry : policy.dryRun = true)
    (files : List (String × String)) (disk : Disk) :
    (writeFiles policy files : StateM Disk (List String × Except WriteError Unit)).run disk =
      ((files.map fun file => DiskPath.resolve (pathOf disk.workPlace) file.1, .ok ()), disk) := by
  induction files with
  | nil => rfl
  | cons file files ih =>
      refine run_writeFiles_cons_eq_ok_iff.2 ⟨disk, _, rfl, ?_, ih⟩
      rw [writeFile, hdry]
      rfl

/-- When files have been written, there is one of them at each of their places. Files that have one
place between them replace each other. -/
theorem exists_file_of_writeFiles {policy : WritePolicy} (hdry : policy.dryRun = false)
    {files : List (String × String)} {recorded : List String}
    (h : (writeFiles policy files : StateM Disk (List String × Except WriteError Unit)).run disk =
      ((recorded, .ok ()), disk')) :
    ∀ place ∈ files.map fun file => placeFrom disk.workPlace file.1,
      ∃ file ∈ files, placeFrom disk.workPlace file.1 = place ∧
        disk'.at? place = some (.file file.2 policy.accessRights) := by
  induction files generalizing disk recorded with
  | nil => simp
  | cons file files ih =>
      obtain ⟨t, others, rfl, hfirst, hothers⟩ := run_writeFiles_cons_eq_ok_iff.1 h
      have hfirstKept := Spares.writeFile policy file.1 file.2 disk rfl
      have hothersKept := Spares.writeFiles policy files t rfl
      rw [hfirst] at hfirstKept
      rw [hothers] at hothersKept
      have hall := ih hothers
      rw [hfirstKept.workPlace_eq] at hall hothersKept
      intro place hplace
      -- The last file that goes to the place is the one that is there in the end.
      by_cases hlater : place ∈ files.map fun file => placeFrom disk.workPlace file.1
      · obtain ⟨other, hother, hat⟩ := hall place hlater
        exact ⟨other, List.mem_cons_of_mem _ hother, hat⟩
      · rw [List.map_cons] at hplace
        obtain rfl := (List.mem_cons.1 hplace).resolve_right hlater
        exact ⟨file, List.mem_cons_self, rfl,
          hothersKept.at?_eq _ hlater _ _ (at?_of_writeFile hdry hfirst)⟩

/-- Files of different names in one directory are all there when they have been written. -/
theorem files_of_writeFiles {policy : WritePolicy} (hdry : policy.dryRun = false)
    (hdirectory : '\x00' ∉ directory.toList) {α : Type} {nameOf textOf : α → String}
    {files : List α} (hplain : ∀ a ∈ files, IsPlain (nameOf a)) (hnodup : (files.map nameOf).Nodup)
    {recorded : List String}
    (h : (writeFiles policy (files.map fun a => (slash directory (nameOf a), textOf a)) :
      StateM Disk (List String × Except WriteError Unit)).run disk = ((recorded, .ok ()), disk')) :
    recorded = files.map (fun a =>
        DiskPath.resolve (pathOf disk.workPlace) (slash directory (nameOf a))) ∧
      ∀ a ∈ files, disk'.Opens directory (nameOf a) ∧
        disk'.at? (placeFrom disk.workPlace (slash directory (nameOf a))) =
          some (.file (textOf a) policy.accessRights) := by
  refine ⟨(recorded_of_writeFiles h).trans (List.map_map ..), ?_⟩
  induction files generalizing disk recorded with
  | nil => simp
  | cons a files ih =>
      rw [List.forall_mem_cons] at hplain
      rw [List.map_cons, List.nodup_cons] at hnodup
      obtain ⟨t, others, rfl, hfirst, hothers⟩ := run_writeFiles_cons_eq_ok_iff.1 h
      obtain ⟨hopens, hfile⟩ := file_of_writeFile hdry hdirectory hplain.1 hfirst
      have hfirstKept := Spares.writeFile policy (slash directory (nameOf a)) (textOf a) disk rfl
      have hothersKept := Spares.writeFiles policy
        (files.map fun a => (slash directory (nameOf a), textOf a)) t rfl
      rw [hfirst] at hfirstKept
      rw [hothers] at hothersKept
      have hwork := hfirstKept.workPlace_eq
      have hall := ih hplain.2 hnodup.2 hothers
      rw [hwork] at hall
      -- The places of the others differ from that of the first file in the name.
      have hapart : placeFrom disk.workPlace (slash directory (nameOf a)) ∉
          (files.map fun a => (slash directory (nameOf a), textOf a)).map fun file =>
            placeFrom t.workPlace file.1 := by
        rw [List.map_map, hwork]
        intro hmem
        obtain ⟨other, hother, hplace⟩ := List.mem_map.1 hmem
        rw [Function.comp_apply, DiskPath.placeFrom_slash _ hdirectory hplain.1,
          DiskPath.placeFrom_slash _ hdirectory (hplain.2 other hother)] at hplace
        have hsame : nameOf other = nameOf a := by simpa using hplace
        exact hnodup.1 (hsame ▸ List.mem_map_of_mem hother)
      rw [List.forall_mem_cons]
      refine ⟨⟨?_, hothersKept.at?_eq _ hapart _ _ hfile⟩, hall⟩
      -- The directory is open to all of its names, if to one.
      cases files with
      | nil =>
          cases hothers
          exact hopens
      | cons second files =>
          obtain ⟨⟨hwalk, -, -⟩, -⟩ := hall second List.mem_cons_self
          exact ⟨hwalk, hopens.name_le, hopens.path_le⟩

end Disk

end PklBindings
