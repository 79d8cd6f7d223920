import PklBindings.Proofs.DiskPaths
import PklBindings.Proofs.DiskTree

/-!
# Following names on a disk

Where names lead. The place is known from the names alone, and what stands there is what the tree
holds at this place (`Disk.stands_find`). A name in a directory is looked up when the way to the
directory can be walked (`Disk.opens_of_leads`), and then it is found as the tree has it
(`Disk.Opens.find_eq`).
-/

namespace PklBindings

open DiskPath (IsPlain followDots)

namespace Folder

/-- The trail was entered from the root, each directory in the one around it. -/
inductive Entered (root : Folder) : List (String × Folder) → Folder → Prop
  | start : Entered root [] root
  | step {trail : List (String × Folder)} {around inner : Folder} {name : String}
      (outer : Entered root trail around) (found : around.lookup name = some (.directory inner)) :
      Entered root ((name, around) :: trail) inner

/-- The place is in a directory that is there. -/
def HasRoom (root : Folder) (place : Place) : Prop :=
  ∃ above inner name, place = above ++ [name] ∧ root.at? above = some (.directory inner)

variable {root here : Folder} {trail : List (String × Folder)}

theorem Entered.at?_placeOf (h : Entered root trail here) :
    root.at? (Disk.placeOf trail) = some (.directory here) := by
  induction h with
  | start => rfl
  | @step trail around inner name outer found ih =>
      have hplace : Disk.placeOf ((name, around) :: trail) = Disk.placeOf trail ++ [name] := by
        simp [Disk.placeOf]
      rw [hplace, at?_concat ih, found]

/-- What stands in the directory that was entered. -/
theorem Entered.at?_placeOf_concat (h : Entered root trail here) (name : String) :
    root.at? (Disk.placeOf trail ++ [name]) = here.lookup name :=
  at?_concat h.at?_placeOf name

theorem Entered.hasRoom (h : Entered root trail here) (name : String) :
    root.HasRoom (Disk.placeOf trail ++ [name]) :=
  ⟨_, _, _, rfl, h.at?_placeOf⟩

/-- A file has room where it is. -/
theorem hasRoom_of_file {place : Place} {text : String} {mode : UInt32}
    (h : root.at? place = some (.file text mode)) : root.HasRoom place := by
  rcases List.eq_nil_or_concat place with rfl | ⟨above, name, rfl⟩
  · cases h
  · rw [List.concat_eq_append] at h ⊢
    obtain ⟨inner, hinner⟩ := exists_directory_of_at? h (by simp)
    exact ⟨above, inner, name, rfl, hinner⟩

end Folder

/-- What is found is what the tree holds at the place. A free place is one in a directory. -/
def Found.Stands (root : Folder) (place : Place) : Found → Prop
  | entry found e => found = place ∧ root.at? place = some e
  | free found => found = place ∧ root.at? place = none ∧ root.HasRoom place
  | nowhere | tooLong => True

/-- The path leads to a place, be it free or not. -/
def Found.Leads : Found → Prop
  | entry _ _ | free _ => True
  | nowhere | tooLong => False

/-- What is found at a place, given what is there. -/
def Found.ofEntry? (place : Place) : Option DiskEntry → Found
  | some e => entry place e
  | none => free place

namespace Disk

open Folder (Entered)

variable {root here : Folder} {trail : List (String × Folder)} {names : List String} {name : String}

/-! ## One name after another -/

/-- The directory around the one that was entered last; the root has none. -/
def leave : List (String × Folder) → Folder → List (String × Folder) × Folder
  | [], here => ([], here)
  | (_, around) :: trail, _ => (trail, around)

theorem map_fst_leave (trail : List (String × Folder)) (here : Folder) :
    (leave trail here).1.map (·.1) = (trail.map (·.1)).tail := by
  cases trail <;> rfl

theorem entered_leave (h : Entered root trail here) :
    Entered root (leave trail here).1 (leave trail here).2 := by
  cases h with
  | start => exact .start
  | step outer found => exact outer

theorem follow_stay (h : DiskPath.Stays name) :
    follow trail here (name :: names) = follow trail here names := by
  rw [follow.eq_def]
  exact if_pos h

/-- Above the root is the root. -/
theorem follow_up :
    follow trail here (".." :: names) =
      follow (leave trail here).1 (leave trail here).2 names := by
  rw [follow.eq_def]
  cases trail <;> rfl

/-- A name of its own is looked up in the directory that was entered last. -/
theorem follow_enter (hstays : ¬ DiskPath.Stays name) (hup : name ≠ "..") :
    follow trail here (name :: names) =
      if maxNameLength < name.utf8ByteSize then .tooLong
      else
        match here.lookup name with
        | none => if names.all (· = "") then .free (placeOf trail ++ [name]) else .nowhere
        | some (.file text mode) =>
          if names.isEmpty then .entry (placeOf trail ++ [name]) (.file text mode) else .nowhere
        | some (.directory inner) => follow ((name, here) :: trail) inner names := by
  rw [follow.eq_def]
  dsimp only
  exact (if_neg hstays).trans (if_neg hup)

/-- Names lead to the place that is left when the dots are followed, and show what is there. -/
theorem stands_follow (h : Entered root trail here) (names : List String) :
    (follow trail here names).Stands root (followDots (trail.map (·.1)) names) := by
  induction names using DiskPath.walk_induction generalizing trail here with
  | nil => exact ⟨rfl, h.at?_placeOf⟩
  | stay name names hstays ih =>
      rw [follow_stay hstays, DiskPath.followDots_stay hstays]
      exact ih h
  | up names ih =>
      rw [follow_up, DiskPath.followDots_up, ← map_fst_leave trail here]
      exact ih (entered_leave h)
  | enter name names hstays hup ih =>
      -- A name that is free or that of a file ends the walk: at most empty names follow it.
      have hplace : (name :: trail.map (·.1)).reverse = placeOf trail ++ [name] := by
        simp [placeOf]
      rw [follow_enter hstays hup, DiskPath.followDots_enter hstays hup]
      split
      · trivial
      cases hlookup : here.lookup name with
      | none =>
          dsimp only
          split
          · rename_i hempty
            rw [DiskPath.followDots_of_all_empty hempty, hplace]
            exact ⟨rfl, (h.at?_placeOf_concat name).trans hlookup, h.hasRoom name⟩
          · trivial
      | some e =>
          cases e with
          | file text mode =>
              dsimp only
              split
              · rename_i hempty
                rw [List.isEmpty_iff.1 hempty, followDots, hplace]
                exact ⟨rfl, (h.at?_placeOf_concat name).trans hlookup⟩
              · trivial
          | directory inner => exact ih (.step h hlookup)

/-! ## The way to a directory -/

/-- The names can be walked from a directory on: each is short enough, and is that of a
directory. -/
def Walkable (root : Folder) : (above : List String) → List String → Prop
  | _, [] => True
  | above, name :: names =>
    if name = "" || name = "." then Walkable root above names
    else if name = ".." then Walkable root above.tail names
    else name.utf8ByteSize ≤ maxNameLength ∧
      (∃ inner, root.at? (name :: above).reverse = some (.directory inner)) ∧
      Walkable root (name :: above) names

section Walkable

variable {above : List String}

theorem walkable_stay (h : DiskPath.Stays name) :
    Walkable root above (name :: names) = Walkable root above names :=
  if_pos h

theorem walkable_up : Walkable root above (".." :: names) = Walkable root above.tail names :=
  rfl

theorem walkable_enter (hstays : ¬ DiskPath.Stays name) (hup : name ≠ "..") :
    Walkable root above (name :: names) = (name.utf8ByteSize ≤ maxNameLength ∧
      (∃ inner, root.at? (name :: above).reverse = some (.directory inner)) ∧
      Walkable root (name :: above) names) :=
  (if_neg hstays).trans (if_neg hup)

/-- A way can be walked wherever its directories are. -/
theorem Walkable.mono {root' : Folder} (h : Walkable root above names)
    (hdirectory : ∀ place inner, root.at? place = some (.directory inner) →
      ∃ inner', root'.at? place = some (.directory inner')) : Walkable root' above names := by
  induction names using DiskPath.walk_induction generalizing above with
  | nil => trivial
  | stay name names hstays ih =>
      rw [walkable_stay hstays] at h ⊢
      exact ih h
  | up names ih =>
      rw [walkable_up] at h ⊢
      exact ih h
  | enter name names hstays hup ih =>
      rw [walkable_enter hstays hup] at h ⊢
      obtain ⟨hlength, ⟨inner, hinner⟩, hothers⟩ := h
      exact ⟨hlength, hdirectory _ inner hinner, ih hothers⟩

end Walkable

/-- A name behind a way that can be walked is looked up in the directory at its end. -/
theorem follow_concat (h : Entered root trail here) (hname : IsPlain name)
    (hwalk : Walkable root (trail.map (·.1)) names) (hlength : name.utf8ByteSize ≤ maxNameLength) :
    follow trail here (names ++ [name]) =
      Found.ofEntry? (followDots (trail.map (·.1)) names ++ [name])
        (root.at? (followDots (trail.map (·.1)) names ++ [name])) := by
  induction names using DiskPath.walk_induction generalizing trail here with
  | nil =>
      have hplace : followDots (trail.map (·.1)) [] = placeOf trail := rfl
      rw [hplace, h.at?_placeOf_concat, List.nil_append,
        follow_enter hname.not_stays hname.ne_dots, if_neg (Nat.not_lt.2 hlength)]
      cases here.lookup name with
      | none => rfl
      | some e =>
          cases e with
          | file text mode => rfl
          | directory inner => simp [follow.eq_1, placeOf, Found.ofEntry?]
  | stay first names hstays ih =>
      rw [walkable_stay hstays] at hwalk
      rw [List.cons_append, follow_stay hstays, DiskPath.followDots_stay hstays]
      exact ih h hwalk
  | up names ih =>
      rw [walkable_up, ← map_fst_leave trail here] at hwalk
      rw [List.cons_append, follow_up, DiskPath.followDots_up, ← map_fst_leave trail here]
      exact ih (entered_leave h) hwalk
  | enter first names hstays hup ih =>
      rw [walkable_enter hstays hup] at hwalk
      obtain ⟨hfirst, ⟨inner, hinner⟩, hothers⟩ := hwalk
      -- The directory of the tree is the one that the trail sees.
      have hlookup : here.lookup first = some (.directory inner) := by
        rw [← h.at?_placeOf_concat, ← hinner]
        simp [placeOf]
      rw [List.cons_append, follow_enter hstays hup, DiskPath.followDots_enter hstays hup,
        if_neg (Nat.not_lt.2 hfirst), hlookup]
      exact ih (.step h hlookup) hothers

/-- The first names of a way that can be walked lead to a directory. -/
theorem exists_follow_eq_directory (h : Entered root trail here)
    (hwalk : Walkable root (trail.map (·.1)) (names ++ more)) :
    ∃ place inner, follow trail here names = .entry place (.directory inner) := by
  induction names using DiskPath.walk_induction generalizing trail here with
  | nil => exact ⟨placeOf trail, here, rfl⟩
  | stay name names hstays ih =>
      rw [List.cons_append, walkable_stay hstays] at hwalk
      rw [follow_stay hstays]
      exact ih h hwalk
  | up names ih =>
      rw [List.cons_append, walkable_up, ← map_fst_leave trail here] at hwalk
      rw [follow_up]
      exact ih (entered_leave h) hwalk
  | enter name names hstays hup ih =>
      rw [List.cons_append, walkable_enter hstays hup] at hwalk
      obtain ⟨hname, ⟨inner, hinner⟩, hothers⟩ := hwalk
      have hlookup : here.lookup name = some (.directory inner) := by
        rw [← h.at?_placeOf_concat, ← hinner]
        simp [placeOf]
      rw [follow_enter hstays hup, if_neg (Nat.not_lt.2 hname), hlookup]
      exact ih (.step h hlookup) hothers

/-- When names lead to a place, the way to the last one can be walked. -/
theorem walkable_of_leads (h : Entered root trail here) (hname : IsPlain name)
    (hleads : (follow trail here (names ++ [name])).Leads) :
    Walkable root (trail.map (·.1)) names ∧ name.utf8ByteSize ≤ maxNameLength := by
  induction names using DiskPath.walk_induction generalizing trail here with
  | nil =>
      rw [List.nil_append, follow_enter hname.not_stays hname.ne_dots] at hleads
      split at hleads
      · exact hleads.elim
      · rename_i hlength
        exact ⟨trivial, Nat.not_lt.1 hlength⟩
  | stay first names hstays ih =>
      rw [List.cons_append, follow_stay hstays] at hleads
      rw [walkable_stay hstays]
      exact ih h hleads
  | up names ih =>
      rw [List.cons_append, follow_up] at hleads
      rw [walkable_up, ← map_fst_leave trail here]
      exact ih (entered_leave h) hleads
  | enter first names hstays hup ih =>
      rw [List.cons_append, follow_enter hstays hup] at hleads
      rw [walkable_enter hstays hup]
      split at hleads
      · exact hleads.elim
      rename_i hlength
      -- Nothing but a directory has a name in it, and the last name is one.
      cases hlookup : here.lookup first with
      | none =>
          rw [hlookup] at hleads
          dsimp only at hleads
          rw [if_neg (by simp [hname.ne_empty])] at hleads
          exact hleads.elim
      | some e =>
          rw [hlookup] at hleads
          cases e with
          | file text mode =>
              dsimp only at hleads
              rw [if_neg (by simp)] at hleads
              exact hleads.elim
          | directory inner =>
              obtain ⟨hothers, hlast⟩ := ih (.step h hlookup) hleads
              refine ⟨⟨Nat.not_lt.1 hlength, ⟨inner, ?_⟩, hothers⟩, hlast⟩
              rw [← hlookup, ← h.at?_placeOf_concat]
              simp [placeOf]

/-! ## Paths -/

variable {disk : Disk} {directory : String}

open DiskPath (slash placeFrom wayFrom)

/-- A path leads to its place, and shows what is there. -/
theorem stands_find (disk : Disk) (path : String) :
    (disk.find path).Stands disk.root (placeFrom disk.workPlace path) := by
  rw [find]
  split
  · trivial
  · split
    · trivial
    · exact stands_follow .start _

theorem eq_of_find_eq_entry {path : String} {place : Place} {entry : DiskEntry}
    (h : disk.find path = .entry place entry) :
    place = placeFrom disk.workPlace path ∧ disk.at? place = some entry := by
  have hstands := stands_find disk path
  rw [h] at hstands
  obtain ⟨rfl, hentry⟩ := hstands
  exact ⟨rfl, hentry⟩

theorem eq_of_find_eq_free {path : String} {place : Place} (h : disk.find path = .free place) :
    place = placeFrom disk.workPlace path ∧ disk.at? place = none ∧ disk.root.HasRoom place := by
  have hstands := stands_find disk path
  rw [h] at hstands
  obtain ⟨rfl, hnone, hroom⟩ := hstands
  exact ⟨rfl, hnone, hroom⟩

/-- A name can be looked up in a directory: the way to the directory can be walked, and nothing is
too long. -/
structure Opens (disk : Disk) (directory name : String) : Prop where
  walkable : Walkable disk.root [] (wayFrom disk.workPlace directory)
  name_le : name.utf8ByteSize ≤ maxNameLength
  path_le : (slash directory name).utf8ByteSize ≤ maxPathLength

theorem find_slash (hdirectory : '\x00' ∉ directory.toList) (hname : IsPlain name) :
    disk.find (slash directory name) =
      if maxPathLength < (slash directory name).utf8ByteSize then .tooLong
      else follow [] disk.root (wayFrom disk.workPlace directory ++ [name]) := by
  rw [find, DiskPath.untilNul_slash hdirectory hname,
    if_neg (DiskPath.slash_ne_empty directory name),
    ← DiskPath.namesFrom_slash hname.slash_notMem]
  rfl

/-- A name that can be looked up is found as the tree has it. -/
theorem Opens.find_eq (h : disk.Opens directory name) (hdirectory : '\x00' ∉ directory.toList)
    (hname : IsPlain name) :
    disk.find (slash directory name) =
      Found.ofEntry? (placeFrom disk.workPlace (slash directory name))
        (disk.at? (placeFrom disk.workPlace (slash directory name))) := by
  rw [find_slash hdirectory hname, if_neg (Nat.not_lt.2 h.path_le),
    DiskPath.placeFrom_slash _ hdirectory hname]
  exact follow_concat .start hname h.walkable h.name_le

/-- What can be looked up still can be wherever the directories are. -/
theorem Opens.mono {disk' : Disk} (h : disk.Opens directory name)
    (hwork : disk'.workPlace = disk.workPlace)
    (hdirectory : ∀ place inner, disk.at? place = some (.directory inner) →
      ∃ inner', disk'.at? place = some (.directory inner')) : disk'.Opens directory name := by
  refine ⟨?_, h.name_le, h.path_le⟩
  rw [hwork]
  exact h.walkable.mono hdirectory

theorem opens_of_leads (hdirectory : '\x00' ∉ directory.toList) (hname : IsPlain name)
    (h : (disk.find (slash directory name)).Leads) : disk.Opens directory name := by
  rw [find_slash hdirectory hname] at h
  split at h
  · exact h.elim
  · rename_i hlength
    obtain ⟨hwalk, hle⟩ := walkable_of_leads .start hname h
    exact ⟨hwalk, hle, Nat.not_lt.1 hlength⟩

/-- The path above that of a file leads to a directory, if names can be looked up there. -/
theorem Opens.status_parent (h : disk.Opens directory name)
    (hdirectory : '\x00' ∉ directory.toList) (hname : IsPlain name) :
    disk.status (DiskPath.parent (slash directory name)) = .directory := by
  rcases DiskPath.parent_slash_cases hname.slash_notMem directory with hroot | ⟨hne, hup⟩
  · rw [hroot]
    rfl
  generalize DiskPath.parent (slash directory name) = up at hne hup
  obtain ⟨rest, rfl⟩ : ∃ rest, directory = up ++ rest := by
    rcases hup with hself | ⟨rest, hslash⟩
    · exact ⟨"", by rw [hself, String.append_empty]⟩
    · exact ⟨"/" ++ rest, by rw [hslash, slash, String.append_assoc]⟩
  have hnul : '\x00' ∉ up.toList := by
    intro hmem
    exact hdirectory (by simp [hmem])
  have hlength : up.utf8ByteSize ≤ maxPathLength := by
    have hpath := h.path_le
    rw [slash, String.utf8ByteSize_append, String.utf8ByteSize_append,
      String.utf8ByteSize_append] at hpath
    omega
  obtain ⟨more, hway⟩ := DiskPath.exists_wayFrom_eq hne hup disk.workPlace
  have hwalk := h.walkable
  rw [hway] at hwalk
  obtain ⟨place, inner, hfollow⟩ := exists_follow_eq_directory .start hwalk
  have hfind : disk.find up = .entry place (.directory inner) := by
    rw [find, Text.untilNul_of_notMem hnul, if_neg hne, if_neg (Nat.not_lt.2 hlength)]
    exact hfollow
  rw [status, hfind]

end Disk

end PklBindings
