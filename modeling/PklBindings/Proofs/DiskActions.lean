import PklBindings.Proofs.DiskLookup

/-!
# What an action on a disk can do

An action either does nothing, or it changes what stands at the place of the path. For each action
the cases say which change this is and what stood at the place before.
-/

namespace PklBindings.Disk

open DiskPath (placeFrom)

/-! ## The actions as computations -/

section Run

variable (path text : String) (mode : UInt32) (disk : Disk)

theorem run_status :
    (FileSystem.status path : StateM Disk PathStatus).run disk = (disk.status path, disk) :=
  rfl

theorem run_readText :
    (FileSystem.readText path : StateM Disk (Option String)).run disk =
      (disk.readText path, disk) :=
  rfl

theorem run_createDirectory :
    (FileSystem.createDirectory path : StateM Disk Bool).run disk = disk.createDirectory path :=
  rfl

theorem run_remove :
    (FileSystem.remove path : StateM Disk Bool).run disk = disk.remove path :=
  rfl

theorem run_writeText :
    (FileSystem.writeText path text : StateM Disk Bool).run disk = disk.writeText path text :=
  rfl

theorem run_setMode :
    (FileSystem.setMode path mode : StateM Disk Bool).run disk = disk.setMode path mode :=
  rfl

end Run

/-! ## What they change -/

/-- A directory is created where nothing stands, or nothing happens. -/
theorem createDirectory_cases (disk : Disk) (path : String) :
    (∃ done, disk.createDirectory path = (done, disk)) ∨
      disk.at? (placeFrom disk.workPlace path) = none ∧
        disk.root.HasRoom (placeFrom disk.workPlace path) ∧
        disk.createDirectory path =
          (true, disk.insert (placeFrom disk.workPlace path) (.directory [])) := by
  rw [createDirectory]
  cases hfind : disk.find path with
  | entry place entry =>
      cases entry with
      | file text mode => exact .inl ⟨false, rfl⟩
      | directory entries => exact .inl ⟨true, rfl⟩
  | free place =>
      obtain ⟨rfl, hnone, hroom⟩ := eq_of_find_eq_free hfind
      exact .inr ⟨hnone, hroom, rfl⟩
  | nowhere => exact .inl ⟨false, rfl⟩
  | tooLong => exact .inl ⟨false, rfl⟩

/-- A file or an empty directory is removed, or nothing happens. -/
theorem remove_cases (disk : Disk) (path : String) :
    disk.remove path = (false, disk) ∨
      ((∃ text mode, disk.at? (placeFrom disk.workPlace path) = some (.file text mode)) ∨
          disk.at? (placeFrom disk.workPlace path) = some (.directory [])) ∧
        disk.remove path = (true, disk.erase (placeFrom disk.workPlace path)) := by
  rw [remove]
  cases hfind : disk.find path with
  | entry place entry =>
      obtain ⟨rfl, hentry⟩ := eq_of_find_eq_entry hfind
      cases entry with
      | file text mode => exact .inr ⟨.inl ⟨text, mode, hentry⟩, rfl⟩
      | directory entries =>
          dsimp only
          split
          · rename_i hmay
            obtain rfl : entries = [] := by
              simp only [mayRemove, Bool.and_eq_true, List.isEmpty_iff] at hmay
              exact hmay.1.2
            exact .inr ⟨.inr hentry, rfl⟩
          · exact .inl rfl
  | free place => exact .inl rfl
  | nowhere => exact .inl rfl
  | tooLong => exact .inl rfl

/-- A file gets the text, a new one if no directory stands there, or nothing happens. -/
theorem writeText_cases (disk : Disk) (path text : String) :
    disk.writeText path text = (false, disk) ∨
      (∀ inner, disk.at? (placeFrom disk.workPlace path) ≠ some (.directory inner)) ∧
        disk.root.HasRoom (placeFrom disk.workPlace path) ∧
        ∃ mode, disk.writeText path text =
          (true, disk.insert (placeFrom disk.workPlace path) (.file text mode)) := by
  rw [writeText]
  cases hfind : disk.find path with
  | entry place entry =>
      obtain ⟨rfl, hentry⟩ := eq_of_find_eq_entry hfind
      cases entry with
      | file old mode =>
          exact .inr ⟨by simp [hentry], Folder.hasRoom_of_file hentry, mode, rfl⟩
      | directory entries => exact .inl rfl
  | free place =>
      obtain ⟨rfl, hnone, hroom⟩ := eq_of_find_eq_free hfind
      dsimp only
      split
      · exact .inl rfl
      · exact .inr ⟨by simp [hnone], hroom, defaultMode, rfl⟩
  | nowhere => exact .inl rfl
  | tooLong => exact .inl rfl

/-- A file that is found gets the access rights, or nothing happens where no file is. -/
theorem setMode_cases (disk : Disk) (path : String) (mode : UInt32) :
    disk.setMode path mode = (false, disk) ∨
      (∃ inner, disk.at? (placeFrom disk.workPlace path) = some (.directory inner)) ∧
        disk.setMode path mode = (true, disk) ∨
      (disk.find path).Leads ∧
        ∃ text old, disk.at? (placeFrom disk.workPlace path) = some (.file text old) ∧
          disk.setMode path mode =
            (true, disk.insert (placeFrom disk.workPlace path) (.file text mode)) := by
  rw [setMode]
  cases hfind : disk.find path with
  | entry place entry =>
      obtain ⟨rfl, hentry⟩ := eq_of_find_eq_entry hfind
      cases entry with
      | file text old => exact .inr (.inr ⟨trivial, text, old, hentry, rfl⟩)
      | directory inner => exact .inr (.inl ⟨⟨inner, hentry⟩, rfl⟩)
  | free place => exact .inl rfl
  | nowhere => exact .inl rfl
  | tooLong => exact .inl rfl

/-- Where nothing is found the place is free, or a file on this path can be neither written nor
given access rights. -/
theorem status_nothing_cases {disk : Disk} {path : String} (h : disk.status path = .nothing) :
    disk.at? (placeFrom disk.workPlace path) = none ∨
      (∀ text, disk.writeText path text = (false, disk)) ∧
        ∀ mode, disk.setMode path mode = (false, disk) := by
  rw [status] at h
  cases hfind : disk.find path with
  | entry place entry =>
      rw [hfind] at h
      cases entry <;> cases h
  | free place =>
      obtain ⟨rfl, hnone, -⟩ := eq_of_find_eq_free hfind
      exact .inl hnone
  | nowhere => exact .inr ⟨fun text => by rw [writeText, hfind], fun mode => by rw [setMode, hfind]⟩
  | tooLong =>
      rw [hfind] at h
      cases h

theorem status_eq_file_iff {disk : Disk} {path : String} :
    disk.status path = .file ↔
      ∃ place text mode, disk.find path = .entry place (.file text mode) := by
  rw [status]
  cases disk.find path with
  | entry place entry => cases entry <;> simp
  | free place => simp
  | nowhere => simp
  | tooLong => simp

/-- Once something is removed, its path leads to no file. -/
theorem status_ne_file_of_remove {path : String} {disk disk' : Disk}
    (h : disk.remove path = (true, disk')) : disk'.status path ≠ .file := by
  intro hstatus
  obtain ⟨place, text, mode, hfind⟩ := status_eq_file_iff.1 hstatus
  obtain ⟨rfl, hfile⟩ := eq_of_find_eq_entry hfind
  rcases remove_cases disk path with hnot | ⟨hthere, hdone⟩
  · cases hnot.symm.trans h
  cases hdone.symm.trans h
  obtain ⟨entry, hentry⟩ : ∃ entry,
      disk.at? (placeFrom disk.workPlace path) = some entry := by
    rcases hthere with ⟨_, _, hfile⟩ | hempty
    · exact ⟨_, hfile⟩
    · exact ⟨_, hempty⟩
  -- What was removed is gone, unless it is the root, which is no file.
  have hplace : (disk.erase (placeFrom disk.workPlace path)).at?
      (placeFrom disk.workPlace path) = some (.file text mode) := hfile
  rw [Disk.at?, erase] at hplace
  by_cases hroot : placeFrom disk.workPlace path = []
  · rw [hroot] at hplace
    cases hplace
  · rw [Folder.at?_alter_drop_self hroot hentry] at hplace
    cases hplace

end PklBindings.Disk
