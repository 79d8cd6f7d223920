import PklBindings.Disk.Writing
import PklBindings.Proofs.DiskActions
import PklBindings.Proofs.KeptRelations

/-!
# What writing leaves alone

Which files of a disk are the same after an action as before. Creating directories neither takes nor
adds a file, and an action on a file leaves all files but the one at its place alone and adds no
other (`Spares.writeFile`, `Spares.writeFiles`), whether it is done or fails.
-/

namespace PklBindings

open DiskPath (placeFrom)

namespace Folder

variable {root : Folder} {place : Place}

/-- Nothing stands below the place. -/
def IsTip (root : Folder) (place : Place) : Prop :=
  ∀ below entry, place <+: below → root.at? below = some entry → place = below

theorem IsTip.at?_eq_none {below : Place} (h : root.IsTip place) (hbelow : place <+: below)
    (hne : place ≠ below) : root.at? below = none :=
  Option.eq_none_iff_forall_ne_some.2 fun entry hentry => hne (h below entry hbelow hentry)

theorem isTip_of_not_directory (h : ∀ inner, root.at? place ≠ some (.directory inner)) :
    root.IsTip place := by
  intro below entry hbelow hentry
  exact prefix_eq_of_at? h hbelow hentry

theorem isTip_of_file {text : String} {mode : UInt32}
    (h : root.at? place = some (.file text mode)) : root.IsTip place := by
  refine isTip_of_not_directory ?_
  intro inner hinner
  cases h.symm.trans hinner

theorem isTip_of_empty (h : root.at? place = some (.directory [])) : root.IsTip place := by
  rintro below entry ⟨rest, rfl⟩ hentry
  cases rest with
  | nil => rw [List.append_nil]
  | cons name rest =>
      rw [at?_append h, at?_cons_of_none rfl] at hentry
      cases hentry

/-- Nothing comes to stand below what is taken away. -/
theorem isTip_alter_drop {entry : DiskEntry} (h : root.IsTip place)
    (hentry : root.at? place = some entry) :
    (root.alter (fun folder name => folder.drop name) place).IsTip place := by
  rcases List.eq_nil_or_concat place with rfl | ⟨above, name, rfl⟩
  · exact h
  · rw [List.concat_eq_append] at hentry ⊢
    obtain ⟨inner, hinner⟩ := exists_directory_of_at? hentry (by simp)
    refine isTip_of_not_directory ?_
    simp [at?_alter_drop hinner]

end Folder

/-- The files of a disk are on another one as well, but for those at the places that have changed.
Relative paths are taken from the same place. -/
structure Disk.KeepsFiles (changed : List Place) (disk disk' : Disk) : Prop where
  workPlace_eq : disk'.workPlace = disk.workPlace
  at?_eq : ∀ place ∉ changed, ∀ text mode, disk.at? place = some (.file text mode) →
    disk'.at? place = some (.file text mode)

namespace Disk

variable {disk disk' disk'' : Disk} {changed changed' : List Place} {place : Place} {path : String}

namespace KeepsFiles

theorem refl (changed : List Place) (disk : Disk) : KeepsFiles changed disk disk :=
  ⟨rfl, fun _ _ _ _ h => h⟩

theorem of_eq (changed : List Place) (h : disk = disk') : KeepsFiles changed disk disk' :=
  h ▸ .refl changed disk

theorem trans (h : KeepsFiles changed disk disk') (h' : KeepsFiles changed disk' disk'') :
    KeepsFiles changed disk disk'' := by
  refine ⟨h'.workPlace_eq.trans h.workPlace_eq, ?_⟩
  intro place hplace text mode hfile
  exact h'.at?_eq place hplace text mode (h.at?_eq place hplace text mode hfile)

theorem mono (h : KeepsFiles changed disk disk') (hsubset : changed ⊆ changed') :
    KeepsFiles changed' disk disk' := by
  refine ⟨h.workPlace_eq, ?_⟩
  intro place hplace text mode hfile
  exact h.at?_eq place (fun hmem => hplace (hsubset hmem)) text mode hfile

/-- A change where there was no file has changed no file. -/
theorem of_no_file (h : KeepsFiles [place] disk disk')
    (hplace : ∀ text mode, disk.at? place ≠ some (.file text mode)) :
    KeepsFiles [] disk disk' := by
  refine ⟨h.workPlace_eq, ?_⟩
  intro other _ text mode hfile
  refine h.at?_eq other ?_ text mode hfile
  intro hother
  obtain rfl := List.mem_singleton.1 hother
  exact hplace text mode hfile

end KeepsFiles

instance (changed : List Place) : IsPreorder Disk (KeepsFiles changed) where
  refl := .refl changed
  trans _ _ _ := .trans

/-- The files of two disks are the same, but for those at the places that have changed. -/
structure SameFiles (changed : List Place) (disk disk' : Disk) : Prop
    extends KeepsFiles changed disk disk' where
  at?_of_at? : ∀ place ∉ changed, ∀ text mode, disk'.at? place = some (.file text mode) →
    disk.at? place = some (.file text mode)

namespace SameFiles

theorem refl (changed : List Place) (disk : Disk) : SameFiles changed disk disk :=
  ⟨.refl changed disk, fun _ _ _ _ h => h⟩

theorem trans (h : SameFiles changed disk disk') (h' : SameFiles changed disk' disk'') :
    SameFiles changed disk disk'' := by
  refine ⟨h.toKeepsFiles.trans h'.toKeepsFiles, ?_⟩
  intro place hplace text mode hfile
  exact h.at?_of_at? place hplace text mode (h'.at?_of_at? place hplace text mode hfile)

theorem mono (h : SameFiles changed disk disk') (hsubset : changed ⊆ changed') :
    SameFiles changed' disk disk' := by
  refine ⟨h.toKeepsFiles.mono hsubset, ?_⟩
  intro place hplace text mode hfile
  exact h.at?_of_at? place (fun hmem => hplace (hsubset hmem)) text mode hfile

/-- A change at one of the places. -/
theorem of_mem (h : SameFiles [place] disk disk') (hplace : place ∈ changed) :
    SameFiles changed disk disk' :=
  h.mono (List.cons_subset.2 ⟨hplace, List.nil_subset _⟩)

end SameFiles

/-! ## Changes at one place -/

theorem sameFiles_alter {change : Folder → String → Folder} (hlocal : Folder.IsLocal change)
    (htip : disk.root.IsTip place) (htip' : (disk.root.alter change place).IsTip place) :
    SameFiles [place] disk { disk with root := disk.root.alter change place } := by
  -- No file is at the changed place, nor is one below it, for that is a tip before and after.
  refine ⟨⟨rfl, ?_⟩, ?_⟩
  · intro other hother text mode hfile
    have hapart : ¬ place <+: other := by
      intro hbelow
      exact hother (List.mem_singleton.2 (htip other _ hbelow hfile).symm)
    rw [Disk.at?] at hfile ⊢
    rcases Folder.at?_alter_or hlocal hapart with h | ⟨old, new, hold, -⟩
    · exact h.trans hfile
    · cases hold.symm.trans hfile
  · intro other hother text mode hfile
    have hapart : ¬ place <+: other := by
      intro hbelow
      exact hother (List.mem_singleton.2 (htip' other _ hbelow hfile).symm)
    rw [Disk.at?] at hfile ⊢
    rcases Folder.at?_alter_or hlocal hapart with h | ⟨old, new, -, hnew⟩
    · exact h.symm.trans hfile
    · cases hnew.symm.trans hfile

/-- What is put in a directory is there. -/
theorem at?_insert (entry : DiskEntry) (h : disk.root.HasRoom place) :
    (disk.insert place entry).at? place = some entry := by
  obtain ⟨above, inner, name, rfl, habove⟩ := h
  exact Folder.at?_alter_put habove name entry

theorem sameFiles_insert_file (text : String) (mode : UInt32) (hroom : disk.root.HasRoom place)
    (h : ∀ inner, disk.at? place ≠ some (.directory inner)) :
    SameFiles [place] disk (disk.insert place (.file text mode)) := by
  exact sameFiles_alter (Folder.isLocal_put _) (Folder.isTip_of_not_directory h)
    (Folder.isTip_of_file (at?_insert _ hroom))

/-- A new directory adds no file. -/
theorem sameFiles_insert_directory (hroom : disk.root.HasRoom place)
    (hnone : disk.at? place = none) :
    SameFiles [] disk (disk.insert place (.directory [])) := by
  have hat := at?_insert (.directory []) hroom
  have h : SameFiles [place] disk (disk.insert place (.directory [])) := by
    refine sameFiles_alter (Folder.isLocal_put _) (Folder.isTip_of_not_directory ?_)
      (Folder.isTip_of_empty hat)
    intro inner hinner
    cases hnone.symm.trans hinner
  refine ⟨h.toKeepsFiles.of_no_file (by simp [hnone]), ?_⟩
  intro other _ text mode hfile
  refine h.at?_of_at? other ?_ text mode hfile
  intro hother
  obtain rfl := List.mem_singleton.1 hother
  cases hat.symm.trans hfile

theorem sameFiles_erase {entry : DiskEntry} (h : disk.root.IsTip place)
    (hentry : disk.at? place = some entry) :
    SameFiles [place] disk (disk.erase place) :=
  sameFiles_alter Folder.isLocal_drop h (Folder.isTip_alter_drop h hentry)

/-- Nothing becomes a file or vanishes that was a directory. -/
theorem exists_directory_insert {other : Place} {inner : Folder} (entry : DiskEntry)
    (h : ∀ inner, disk.at? place ≠ some (.directory inner))
    (hother : disk.root.at? other = some (.directory inner)) :
    ∃ inner', (disk.insert place entry).root.at? other = some (.directory inner') := by
  refine Folder.exists_directory_alter (Folder.isLocal_put entry) ?_ hother
  -- Below a place that is no directory there is no directory either.
  intro hbelow
  obtain rfl := Folder.prefix_eq_of_at? h hbelow hother
  exact h inner hother

/-! ## Actions -/

theorem sameFiles_createDirectory (disk : Disk) (path : String) :
    SameFiles [] disk (disk.createDirectory path).2 := by
  rcases createDirectory_cases disk path with ⟨done, h⟩ | ⟨hnone, hroom, h⟩
  · rw [h]
    exact .refl _ disk
  · rw [h]
    exact sameFiles_insert_directory hroom hnone

theorem sameFiles_remove (disk : Disk) (path : String) :
    SameFiles [placeFrom disk.workPlace path] disk (disk.remove path).2 := by
  rcases remove_cases disk path with h | ⟨⟨text, mode, hfile⟩ | hempty, h⟩
  · rw [h]
    exact .refl _ disk
  · rw [h]
    exact sameFiles_erase (Folder.isTip_of_file hfile) hfile
  · rw [h]
    exact sameFiles_erase (Folder.isTip_of_empty hempty) hempty

theorem sameFiles_writeText (disk : Disk) (path text : String) :
    SameFiles [placeFrom disk.workPlace path] disk (disk.writeText path text).2 := by
  rcases writeText_cases disk path text with h | ⟨hnot, hroom, mode, h⟩
  · rw [h]
    exact .refl _ disk
  · rw [h]
    exact sameFiles_insert_file text mode hroom hnot

theorem sameFiles_setMode (disk : Disk) (path : String) (mode : UInt32) :
    SameFiles [placeFrom disk.workPlace path] disk (disk.setMode path mode).2 := by
  rcases setMode_cases disk path mode with h | ⟨-, h⟩ | ⟨-, text, old, hfile, h⟩
  · rw [h]
    exact .refl _ disk
  · rw [h]
    exact .refl _ disk
  · rw [h]
    exact sameFiles_insert_file text mode (Folder.hasRoom_of_file hfile) (by simp [hfile])

end Disk

/-! ## Computations

What a computation spares depends on the place that relative paths are taken from, which no
computation changes. -/

open Disk (SameFiles)

/-- The computation leaves all files alone but those at the places, and adds none elsewhere. -/
def Spares (work : Place) (changed : List Place) {α : Type} (x : StateM Disk α) : Prop :=
  ∀ disk : Disk, disk.workPlace = work → SameFiles changed disk (x.run disk).2

/-- If relative paths are taken from the place, the files of the two disks are the same, but for
those at the places that have changed. A computation that keeps this relation spares the files. -/
def Disk.SameFilesFrom (work : Place) (changed : List Place) (disk disk' : Disk) : Prop :=
  disk.workPlace = work → SameFiles changed disk disk'

instance (work : Place) (changed : List Place) :
    IsPreorder Disk (Disk.SameFilesFrom work changed) where
  refl disk _ := .refl changed disk
  trans _ _ _ h h' hwork := (h hwork).trans (h' ((h hwork).workPlace_eq.trans hwork))

namespace Spares

variable {work : Place}

/-- An action changes files only at the place of its path, and most of them none at all. -/
theorem stepsKeep (work : Place) (changed : List Place) :
    FileSystem.StepsHave (fun _ => Keeps (Disk.SameFilesFrom work changed))
      (placeFrom work · ∈ changed) where
  currentDirectory disk _ := .refl changed disk
  status _ disk _ := .refl changed disk
  createDirectory path disk _ := by
    rw [Disk.run_createDirectory]
    exact (Disk.sameFiles_createDirectory disk path).mono (List.nil_subset _)
  remove path hpath := by
    rintro disk rfl
    rw [Disk.run_remove]
    exact (Disk.sameFiles_remove disk path).of_mem hpath
  writeText path text hpath := by
    rintro disk rfl
    rw [Disk.run_writeText]
    exact (Disk.sameFiles_writeText disk path text).of_mem hpath
  setMode path mode hpath := by
    rintro disk rfl
    rw [Disk.run_setMode]
    exact (Disk.sameFiles_setMode disk path mode).of_mem hpath

open FileSystem

/-- To make room for a file changes no file. -/
theorem makeRoom (path : String) :
    Spares work [] (makeRoom path : ExceptT WriteError (StateM Disk) Unit).run :=
  (stepsKeep work []).makeRoom Keeps.compositional path

theorem clearWay (policy : WritePolicy) (path : String) :
    Spares work [placeFrom work path]
      (clearWay policy path : ExceptT WriteError (StateM Disk) Unit).run :=
  (stepsKeep work _).clearWay Keeps.compositional policy (List.mem_singleton_self _)

theorem writeFile (policy : WritePolicy) (path text : String) :
    Spares work [placeFrom work path]
      (writeFile policy path text : ExceptT WriteError (StateM Disk) Unit).run :=
  (stepsKeep work _).writeFile Keeps.compositional policy (List.mem_singleton_self _) text

theorem writeFiles (policy : WritePolicy) (files : List (String × String)) :
    Spares work (files.map fun file => placeFrom work file.1)
      (writeFiles policy files : StateM Disk (List String × Except WriteError Unit)) :=
  (stepsKeep work _).writeFiles Keeps.compositional policy fun _ hfile => List.mem_map_of_mem hfile

end Spares

end PklBindings
