import PklBindings.Proofs.DiskFrame

/-!
# Disks that differ in one text

Two disks may hold the same at every place, but for the text of the file at one of them
(`Disk.SameBut`). A path leads to the same on both (`Disk.SameBut.alike_find`), so every question
has one answer on both, except for the text of that file, and after every action the disks still
differ in this text at most (`Disk.SameBut.stepsRespect`).
-/

namespace PklBindings

/-- What stands at one place of two disks is alike: nothing, a directory, or a file with the same
access rights and, unless its text is hidden, with the same text. -/
inductive AlikeAt (hidden : Prop) : Option DiskEntry → Option DiskEntry → Prop
  | nothing : AlikeAt hidden none none
  | directory (inner inner' : Folder) :
      AlikeAt hidden (some (.directory inner)) (some (.directory inner'))
  | file {text text' : String} (mode : UInt32) (same : hidden ∨ text = text') :
      AlikeAt hidden (some (.file text mode)) (some (.file text' mode))

theorem AlikeAt.refl (hidden : Prop) (e : Option DiskEntry) : AlikeAt hidden e e := by
  rcases e with _ | ⟨text, mode⟩ | inner
  · exact .nothing
  · exact .file mode (.inr rfl)
  · exact .directory inner inner

theorem AlikeAt.symm {hidden : Prop} {e e' : Option DiskEntry} (h : AlikeAt hidden e e') :
    AlikeAt hidden e' e := by
  cases h with
  | nothing => exact .nothing
  | directory inner inner' => exact .directory inner' inner
  | file mode same => exact .file mode (same.imp_right Eq.symm)

theorem AlikeAt.exists_directory {hidden : Prop} {inner : Folder} {e : Option DiskEntry}
    (h : AlikeAt hidden (some (.directory inner)) e) : ∃ inner', e = some (.directory inner') := by
  cases h with
  | directory inner inner' => exact ⟨inner', rfl⟩

/-- A path leads to the same place in two trees, and what stands there is alike. A free place is in
a directory of both. -/
inductive Found.Alike (place : Place) (root root' : Folder) : Found → Found → Prop
  | directory {other : Place} {inner inner' : Folder}
      (stands : root.at? other = some (.directory inner))
      (stands' : root'.at? other = some (.directory inner')) :
      Alike place root root' (.entry other (.directory inner)) (.entry other (.directory inner'))
  | file {other : Place} {text text' : String} {mode : UInt32}
      (same : other = place ∨ text = text')
      (stands : root.at? other = some (.file text mode))
      (stands' : root'.at? other = some (.file text' mode)) :
      Alike place root root' (.entry other (.file text mode)) (.entry other (.file text' mode))
  | free {other : Place} (room : root.HasRoom other) (room' : root'.HasRoom other) :
      Alike place root root' (.free other) (.free other)
  | nowhere : Alike place root root' .nowhere .nowhere
  | tooLong : Alike place root root' .tooLong .tooLong

/-- The same stands everywhere on two disks, but for the text of the file at one place. -/
structure Disk.SameBut (place : Place) (disk disk' : Disk) : Prop where
  workPlace_eq : disk'.workPlace = disk.workPlace
  alike : ∀ other, AlikeAt (other = place) (disk.at? other) (disk'.at? other)

namespace Disk

open Folder (Entered)

variable {place changed : Place} {disk disk' : Disk} {path : String}

/-! ## Looking -/

/-- The names that were entered on both disks are the same, so each further name is looked up in
directories of one place. -/
theorem alike_follow {root root' here here' : Folder} {trail trail' : List (String × Folder)}
    (hroot : ∀ other, AlikeAt (other = place) (root.at? other) (root'.at? other))
    (h : Entered root trail here) (h' : Entered root' trail' here')
    (htrail : trail'.map (·.1) = trail.map (·.1)) (names : List String) :
    (follow trail here names).Alike place root root' (follow trail' here' names) := by
  induction names using DiskPath.walk_induction generalizing trail trail' here here' with
  | nil =>
      have hplace : placeOf trail' = placeOf trail := congrArg List.reverse htrail
      have hhere' := h'.at?_placeOf
      rw [hplace] at hhere'
      rw [follow, follow, hplace]
      exact .directory h.at?_placeOf hhere'
  | stay name names hstays ih =>
      rw [follow_stay hstays, follow_stay hstays]
      exact ih h h' htrail
  | up names ih =>
      rw [follow_up, follow_up]
      refine ih (entered_leave h) (entered_leave h') ?_
      rw [map_fst_leave, map_fst_leave, htrail]
  | enter name names hstays hup ih =>
      have hplace : placeOf trail' = placeOf trail := congrArg List.reverse htrail
      have hname := h.at?_placeOf_concat name
      have hname' := h'.at?_placeOf_concat name
      have hroom' := h'.hasRoom name
      have hlookup := hroot (placeOf trail ++ [name])
      rw [hplace] at hname' hroom'
      rw [hname, hname'] at hlookup
      rw [follow_enter hstays hup, follow_enter hstays hup, hplace]
      split
      · exact .tooLong
      generalize hfound : here.lookup name = found at hlookup ⊢
      generalize hfound' : here'.lookup name = found' at hlookup ⊢
      cases hlookup with
      | nothing =>
          dsimp only
          split
          · exact .free (h.hasRoom name) hroom'
          · exact .nowhere
      | directory inner inner' =>
          refine ih (.step h hfound) (.step h' hfound') ?_
          rw [List.map_cons, List.map_cons, htrail]
      | file mode same =>
          dsimp only
          split
          · exact .file same (hname.trans hfound) (hname'.trans hfound')
          · exact .nowhere

namespace SameBut

theorem symm (h : SameBut place disk disk') : SameBut place disk' disk :=
  ⟨h.workPlace_eq.symm, fun other => (h.alike other).symm⟩

theorem alike_find (h : SameBut place disk disk') (path : String) :
    (disk.find path).Alike place disk.root disk'.root (disk'.find path) := by
  rw [find, find]
  split
  · exact .nowhere
  split
  · exact .tooLong
  · rw [namesFromRoot, namesFromRoot, h.workPlace_eq]
    exact alike_follow h.alike .start .start rfl _

theorem status_eq (h : SameBut place disk disk') (path : String) :
    disk.status path = disk'.status path := by
  have hfind := h.alike_find path
  rw [status, status]
  generalize disk.find path = found at hfind
  generalize disk'.find path = found' at hfind
  cases hfind with
  | directory stands stands' => rfl
  | file same stands stands' => rfl
  | free room room' => rfl
  | nowhere => rfl
  | tooLong => rfl

/-- A text is read alike, unless it is the one in which the disks differ. -/
theorem readText_cases (h : SameBut place disk disk') (path : String) :
    disk.readText path = disk'.readText path ∨
      ∃ text text' mode, disk.find path = .entry place (.file text mode) ∧
        disk'.find path = .entry place (.file text' mode) := by
  have hfind := h.alike_find path
  rw [readText, readText]
  generalize disk.find path = found at hfind
  generalize disk'.find path = found' at hfind
  cases hfind with
  | directory stands stands' => exact .inl rfl
  | file same stands stands' =>
      rcases same with rfl | rfl
      · exact .inr ⟨_, _, _, rfl, rfl⟩
      · exact .inl rfl
  | free room room' => exact .inl rfl
  | nowhere => exact .inl rfl
  | tooLong => exact .inl rfl

theorem eq_nil_of_eq_nil (h : SameBut place disk disk') {other : Place} {inner' : Folder}
    (hempty : disk.at? other = some (.directory []))
    (hinner' : disk'.at? other = some (.directory inner')) : inner' = [] := by
  cases inner' with
  | nil => rfl
  | cons first inner' =>
      obtain ⟨name, e⟩ := first
      have hname := h.alike (other ++ [name])
      rw [Disk.at?, Disk.at?, Folder.at?_concat hempty, Folder.at?_concat hinner',
        List.lookup_cons_self] at hname
      cases hname

/-- A directory is empty on both disks or on none. -/
theorem isEmpty_eq (h : SameBut place disk disk') {other : Place} {inner inner' : Folder}
    (hinner : disk.at? other = some (.directory inner))
    (hinner' : disk'.at? other = some (.directory inner')) : inner.isEmpty = inner'.isEmpty := by
  rw [Bool.eq_iff_iff, List.isEmpty_iff, List.isEmpty_iff]
  constructor
  · rintro rfl
    exact h.eq_nil_of_eq_nil hinner hinner'
  · rintro rfl
    exact h.symm.eq_nil_of_eq_nil hinner' hinner

/-! ## Changing -/

/-- The disks stay alike when both are changed at one place, what is there afterwards is alike, and
nothing is below. -/
theorem alter (h : SameBut place disk disk') {change change' : Folder → String → Folder}
    (hlocal : Folder.IsLocal change) (hlocal' : Folder.IsLocal change')
    (htip : (disk.root.alter change changed).IsTip changed)
    (htip' : (disk'.root.alter change' changed).IsTip changed)
    (hat : AlikeAt (changed = place) ((disk.root.alter change changed).at? changed)
      ((disk'.root.alter change' changed).at? changed)) :
    SameBut place { disk with root := disk.root.alter change changed }
      { disk' with root := disk'.root.alter change' changed } := by
  refine ⟨h.workPlace_eq, ?_⟩
  intro other
  have hother := h.alike other
  simp only [Disk.at?] at hother ⊢
  by_cases hbelow : changed <+: other
  · by_cases heq : changed = other
    · subst heq
      exact hat
    · rw [htip.at?_eq_none hbelow heq, htip'.at?_eq_none hbelow heq]
      exact .nothing
  · -- Away from the change all stays as it is, but that directories have something else in them.
    rcases Folder.at?_alter_or hlocal hbelow with hkept | ⟨old, new, hold, hnew⟩
    · rcases Folder.at?_alter_or hlocal' hbelow with hkept' | ⟨old', new', hold', hnew'⟩
      · rw [hkept, hkept']
        exact hother
      · rw [hold'] at hother
        obtain ⟨old, hold⟩ := hother.symm.exists_directory
        rw [hkept, hold, hnew']
        exact .directory _ _
    · rcases Folder.at?_alter_or hlocal' hbelow with hkept' | ⟨old', new', hold', hnew'⟩
      · rw [hold] at hother
        obtain ⟨old', hold'⟩ := hother.exists_directory
        rw [hkept', hold', hnew]
        exact .directory _ _
      · rw [hnew, hnew']
        exact .directory _ _

/-- The same entry is put in both disks, or a file of which the text is hidden. -/
theorem insert_file (h : SameBut place disk disk') (hroom : disk.root.HasRoom changed)
    (hroom' : disk'.root.HasRoom changed) {text text' : String} (mode : UInt32)
    (hsame : changed = place ∨ text = text') :
    SameBut place (disk.insert changed (.file text mode))
      (disk'.insert changed (.file text' mode)) := by
  have hat := at?_insert (.file text mode) hroom
  have hat' := at?_insert (.file text' mode) hroom'
  refine h.alter (Folder.isLocal_put _) (Folder.isLocal_put _) (Folder.isTip_of_file hat)
    (Folder.isTip_of_file hat') ?_
  rw [Disk.at?, insert] at hat hat'
  rw [hat, hat']
  exact .file mode hsame

theorem insert_directory (h : SameBut place disk disk') (hroom : disk.root.HasRoom changed)
    (hroom' : disk'.root.HasRoom changed) :
    SameBut place (disk.insert changed (.directory [])) (disk'.insert changed (.directory [])) := by
  have hat := at?_insert (.directory []) hroom
  have hat' := at?_insert (.directory []) hroom'
  refine h.alter (Folder.isLocal_put _) (Folder.isLocal_put _) (Folder.isTip_of_empty hat)
    (Folder.isTip_of_empty hat') ?_
  rw [Disk.at?, insert] at hat hat'
  rw [hat, hat']
  exact .directory _ _

theorem erase (h : SameBut place disk disk') {e e' : DiskEntry} (hne : changed ≠ [])
    (htip : disk.root.IsTip changed) (htip' : disk'.root.IsTip changed)
    (hentry : disk.at? changed = some e) (hentry' : disk'.at? changed = some e') :
    SameBut place (disk.erase changed) (disk'.erase changed) := by
  refine h.alter Folder.isLocal_drop Folder.isLocal_drop (Folder.isTip_alter_drop htip hentry)
    (Folder.isTip_alter_drop htip' hentry') ?_
  rw [Folder.at?_alter_drop_self hne hentry, Folder.at?_alter_drop_self hne hentry']
  exact .nothing

/-- A disk on which a file gets another text. -/
theorem insert_text {text : String} {mode : UInt32}
    (hfile : disk.at? place = some (.file text mode)) (text' : String) :
    SameBut place disk (disk.insert place (.file text' mode)) := by
  have hat := at?_insert (.file text' mode) (Folder.hasRoom_of_file hfile)
  have htip : disk.root.IsTip place := Folder.isTip_of_file hfile
  have htip' : (disk.insert place (.file text' mode)).root.IsTip place := Folder.isTip_of_file hat
  refine ⟨rfl, ?_⟩
  intro other
  by_cases hbelow : place <+: other
  · by_cases heq : place = other
    · subst heq
      rw [hfile, hat]
      exact .file mode (.inl rfl)
    · rw [Disk.at?, Disk.at?, htip.at?_eq_none hbelow heq, htip'.at?_eq_none hbelow heq]
      exact .nothing
  · rw [Disk.at?, Disk.at?, insert]
    rcases Folder.at?_alter_or (Folder.isLocal_put (.file text' mode)) hbelow with
      hkept | ⟨old, new, hold, hnew⟩
    · rw [hkept]
      exact .refl _ _
    · rw [hold, hnew]
      exact .directory old new

/-! ## Actions -/

/-- The same answer on both disks, which are still alike afterwards. -/
theorem createDirectory (h : SameBut place disk disk') (path : String) :
    (disk.createDirectory path).1 = (disk'.createDirectory path).1 ∧
      SameBut place (disk.createDirectory path).2 (disk'.createDirectory path).2 := by
  have hfind := h.alike_find path
  rw [Disk.createDirectory, Disk.createDirectory]
  generalize disk.find path = found at hfind
  generalize disk'.find path = found' at hfind
  cases hfind with
  | directory stands stands' => exact ⟨rfl, h⟩
  | file same stands stands' => exact ⟨rfl, h⟩
  | free room room' => exact ⟨rfl, h.insert_directory room room'⟩
  | nowhere => exact ⟨rfl, h⟩
  | tooLong => exact ⟨rfl, h⟩

theorem remove (h : SameBut place disk disk') (path : String) :
    (disk.remove path).1 = (disk'.remove path).1 ∧
      SameBut place (disk.remove path).2 (disk'.remove path).2 := by
  have hfind := h.alike_find path
  rw [Disk.remove, Disk.remove]
  generalize disk.find path = found at hfind
  generalize disk'.find path = found' at hfind
  cases hfind with
  | @directory other inner inner' stands stands' =>
      have hmay : mayRemove path other inner' = mayRemove path other inner := by
        rw [mayRemove, mayRemove, h.isEmpty_eq stands stands']
      dsimp only
      rw [hmay]
      split
      · rename_i hyes
        rw [hyes] at hmay
        simp only [mayRemove, Bool.and_eq_true, Bool.not_eq_true', List.isEmpty_iff,
          List.isEmpty_eq_false_iff] at hyes hmay
        obtain ⟨⟨hne, rfl⟩, -⟩ := hyes
        obtain ⟨⟨-, rfl⟩, -⟩ := hmay
        exact ⟨rfl, h.erase hne (Folder.isTip_of_empty stands) (Folder.isTip_of_empty stands')
          stands stands'⟩
      · exact ⟨rfl, h⟩
  | @file other text text' mode same stands stands' =>
      have hne : other ≠ [] := by
        rintro rfl
        cases stands
      exact ⟨rfl, h.erase hne (Folder.isTip_of_file stands) (Folder.isTip_of_file stands')
        stands stands'⟩
  | free room room' => exact ⟨rfl, h⟩
  | nowhere => exact ⟨rfl, h⟩
  | tooLong => exact ⟨rfl, h⟩

theorem writeText (h : SameBut place disk disk') (path text : String) :
    (disk.writeText path text).1 = (disk'.writeText path text).1 ∧
      SameBut place (disk.writeText path text).2 (disk'.writeText path text).2 := by
  have hfind := h.alike_find path
  rw [Disk.writeText, Disk.writeText]
  generalize disk.find path = found at hfind
  generalize disk'.find path = found' at hfind
  cases hfind with
  | directory stands stands' => exact ⟨rfl, h⟩
  | file same stands stands' =>
      exact ⟨rfl, h.insert_file (Folder.hasRoom_of_file stands) (Folder.hasRoom_of_file stands') _
        (.inr rfl)⟩
  | free room room' =>
      dsimp only
      split
      · exact ⟨rfl, h⟩
      · exact ⟨rfl, h.insert_file room room' _ (.inr rfl)⟩
  | nowhere => exact ⟨rfl, h⟩
  | tooLong => exact ⟨rfl, h⟩

theorem setMode (h : SameBut place disk disk') (path : String) (mode : UInt32) :
    (disk.setMode path mode).1 = (disk'.setMode path mode).1 ∧
      SameBut place (disk.setMode path mode).2 (disk'.setMode path mode).2 := by
  have hfind := h.alike_find path
  rw [Disk.setMode, Disk.setMode]
  generalize disk.find path = found at hfind
  generalize disk'.find path = found' at hfind
  cases hfind with
  | directory stands stands' => exact ⟨rfl, h⟩
  | file same stands stands' =>
      exact ⟨rfl, h.insert_file (Folder.hasRoom_of_file stands) (Folder.hasRoom_of_file stands')
        mode same⟩
  | free room room' => exact ⟨rfl, h⟩
  | nowhere => exact ⟨rfl, h⟩
  | tooLong => exact ⟨rfl, h⟩

/-- Every step of writing gives the same on both disks. -/
theorem stepsRespect (place : Place) :
    FileSystem.StepsHave (fun _ => Respects (SameBut place)) fun _ => True where
  currentDirectory _ _ h := ⟨congrArg pathOf h.workPlace_eq.symm, h⟩
  status path disk disk' h := by
    rw [Agrees, run_status, run_status]
    exact ⟨h.status_eq path, h⟩
  createDirectory path disk disk' h := by
    rw [Agrees, run_createDirectory, run_createDirectory]
    exact h.createDirectory path
  remove path _ disk disk' h := by
    rw [Agrees, run_remove, run_remove]
    exact h.remove path
  writeText path text _ disk disk' h := by
    rw [Agrees, run_writeText, run_writeText]
    exact h.writeText path text
  setMode path mode _ disk disk' h := by
    rw [Agrees, run_setMode, run_setMode]
    exact h.setMode path mode

end SameBut

end Disk

end PklBindings
