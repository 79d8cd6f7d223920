import PklBindings.Disk.Basic

/-!
# Trees of directories

What stands where in a directory, and what is left of it after a change at one place. Nothing stands
below a file or below a place that is free (`Folder.prefix_eq_of_at?`), so a change there shows at
that place alone (`Folder.at?_alter_or`), and there stands what the change has left
(`Folder.at?_alter_concat`).
-/

namespace PklBindings

namespace Folder

variable {folder inner : Folder} {name : String} {place rest : Place} {entry : DiskEntry}

/-! ## One directory -/

theorem lookup_filter_ne (folder : Folder) (name other : String) :
    (folder.filter (·.1 ≠ name)).lookup other =
      if other = name then none else folder.lookup other := by
  induction folder with
  | nil => simp
  | cons first folder ih =>
      obtain ⟨key, e⟩ := first
      by_cases hkey : key = name
      · rw [List.filter_cons_of_neg (by simpa using hkey), ih]
        by_cases hother : other = name
        · rw [if_pos hother, if_pos hother]
        · have hne : (other == key) = false := by simpa [hkey] using hother
          rw [if_neg hother, if_neg hother, List.lookup_cons, hne]
      · rw [List.filter_cons_of_pos (by simpa using hkey), List.lookup_cons, List.lookup_cons, ih]
        by_cases hother : other = key
        · simp [hother, hkey]
        · have hne : (other == key) = false := by simpa using hother
          rw [hne]

theorem lookup_put (folder : Folder) (name other : String) (entry : DiskEntry) :
    (folder.put name entry).lookup other =
      if other = name then some entry else folder.lookup other := by
  rw [put, List.lookup_cons, lookup_filter_ne]
  by_cases hother : other = name
  · simp [hother]
  · have hne : (other == name) = false := by simpa using hother
    rw [hne, if_neg hother, if_neg hother]

theorem lookup_drop (folder : Folder) (name other : String) :
    (folder.drop name).lookup other = if other = name then none else folder.lookup other :=
  lookup_filter_ne folder name other

/-! ## Places -/

@[simp] theorem at?_nil : folder.at? [] = some (.directory folder) :=
  rfl

theorem at?_cons_of_none (h : folder.lookup name = none) : folder.at? (name :: rest) = none := by
  rw [at?, h]

theorem at?_cons_of_file {text : String} {mode : UInt32}
    (h : folder.lookup name = some (.file text mode)) :
    folder.at? (name :: rest) = if rest = [] then some (.file text mode) else none := by
  rw [at?, h]

theorem at?_cons_of_directory (h : folder.lookup name = some (.directory inner)) :
    folder.at? (name :: rest) = inner.at? rest := by
  rw [at?, h]

theorem at?_singleton (folder : Folder) (name : String) :
    folder.at? [name] = folder.lookup name := by
  cases h : folder.lookup name with
  | none => exact at?_cons_of_none h
  | some entry =>
      cases entry with
      | file text mode => rw [at?_cons_of_file h, if_pos rfl]
      | directory inner => rw [at?_cons_of_directory h, at?_nil]

/-- What is found along a place depends on the entry under its first name alone. -/
theorem at?_cons_congr {folder' : Folder} (h : folder'.lookup name = folder.lookup name) :
    folder'.at? (name :: rest) = folder.at? (name :: rest) := by
  rw [at?, at?, h]

theorem at?_append (h : folder.at? place = some (.directory inner)) :
    folder.at? (place ++ rest) = inner.at? rest := by
  -- There are directories all the way, for there is one at its end.
  induction place generalizing folder with
  | nil =>
      cases h
      rfl
  | cons name place ih =>
      cases hname : folder.lookup name with
      | none =>
          rw [at?_cons_of_none hname] at h
          cases h
      | some entry =>
          cases entry with
          | file text mode =>
              rw [at?_cons_of_file hname] at h
              split at h <;> cases h
          | directory next =>
              rw [at?_cons_of_directory hname] at h
              rw [List.cons_append, at?_cons_of_directory hname, ih h]

theorem at?_concat (h : folder.at? place = some (.directory inner)) (name : String) :
    folder.at? (place ++ [name]) = inner.lookup name := by
  rw [at?_append h, at?_singleton]

/-- Above what stands somewhere are directories. -/
theorem exists_directory_of_at? (h : folder.at? (place ++ rest) = some entry) (hrest : rest ≠ []) :
    ∃ inner, folder.at? place = some (.directory inner) := by
  induction place generalizing folder with
  | nil => exact ⟨folder, rfl⟩
  | cons name place ih =>
      rw [List.cons_append] at h
      cases hname : folder.lookup name with
      | none =>
          rw [at?_cons_of_none hname] at h
          cases h
      | some first =>
          cases first with
          | file text mode => simp [at?_cons_of_file hname, hrest] at h
          | directory next =>
              rw [at?_cons_of_directory hname] at h ⊢
              exact ih h

/-- Nothing stands below a place that is not a directory. -/
theorem prefix_eq_of_at? {below : Place} (h : ∀ inner, folder.at? place ≠ some (.directory inner))
    (habove : place <+: below) (hbelow : folder.at? below = some entry) : place = below := by
  obtain ⟨rest, rfl⟩ := habove
  by_cases hrest : rest = []
  · rw [hrest, List.append_nil]
  · obtain ⟨inner, hinner⟩ := exists_directory_of_at? hbelow hrest
    exact absurd hinner (h inner)

/-! ## Changes -/

section Alter

variable {change : Folder → String → Folder}

theorem alter_cons_of_directory (hname : folder.lookup name = some (.directory inner))
    (hrest : rest ≠ []) :
    folder.alter change (name :: rest) =
      folder.put name (.directory (inner.alter change rest)) := by
  cases rest with
  | nil => exact absurd rfl hrest
  | cons next rest => rw [alter, hname]

theorem alter_cons_of_not_directory (hname : ∀ inner, folder.lookup name ≠ some (.directory inner))
    (hrest : rest ≠ []) : folder.alter change (name :: rest) = folder := by
  cases rest with
  | nil => exact absurd rfl hrest
  | cons next rest =>
      rw [alter]
      split
      · rename_i inner hinner
        exact absurd hinner (hname inner)
      · rfl

/-- Changes the entry under the given name only. -/
def IsLocal (change : Folder → String → Folder) : Prop :=
  ∀ (folder : Folder) (name other : String), other ≠ name →
    (change folder name).lookup other = folder.lookup other

theorem isLocal_put (entry : DiskEntry) : IsLocal fun folder name => folder.put name entry := by
  intro folder name other hother
  rw [lookup_put, if_neg hother]

theorem isLocal_drop : IsLocal fun folder name => folder.drop name := by
  intro folder name other hother
  rw [lookup_drop, if_neg hother]

/-- Away from a change, a directory stays one, and all else stays as it is. -/
theorem at?_alter_or {changed : Place} (hlocal : IsLocal change) (happart : ¬ changed <+: place) :
    (folder.alter change changed).at? place = folder.at? place ∨
      ∃ old new, folder.at? place = some (.directory old) ∧
        (folder.alter change changed).at? place = some (.directory new) := by
  -- The induction is on the way to the change; off this way nothing is touched.
  induction changed generalizing folder place with
  | nil => exact absurd List.nil_prefix happart
  | cons name changed ih =>
      cases place with
      | nil => exact .inr ⟨_, _, rfl, rfl⟩
      | cons other place =>
          by_cases hchanged : changed = []
          · subst hchanged
            have hother : other ≠ name := by
              rintro rfl
              exact happart ⟨place, rfl⟩
            exact .inl (at?_cons_congr (hlocal folder name other hother))
          by_cases hdirectory : ∃ inner, folder.lookup name = some (.directory inner)
          · obtain ⟨inner, hinner⟩ := hdirectory
            rw [alter_cons_of_directory hinner hchanged]
            by_cases hother : other = name
            · -- Both ways go through this directory, which is put back changed.
              subst hother
              have hrest : ¬ changed <+: place := by
                rintro ⟨rest, rfl⟩
                exact happart ⟨rest, rfl⟩
              have hput : (folder.put other (.directory (alter change inner changed))).lookup other
                  = some (.directory (alter change inner changed)) := by
                rw [lookup_put, if_pos rfl]
              rw [at?_cons_of_directory hput, at?_cons_of_directory hinner]
              exact ih hrest
            · exact .inl (at?_cons_congr (by rw [lookup_put, if_neg hother]))
          · rw [not_exists] at hdirectory
            rw [alter_cons_of_not_directory hdirectory hchanged]
            exact .inl rfl

/-- Away from a change, directories stay directories. -/
theorem exists_directory_alter {changed : Place} (hlocal : IsLocal change)
    (happart : ¬ changed <+: place) (hplace : folder.at? place = some (.directory inner)) :
    ∃ new, (folder.alter change changed).at? place = some (.directory new) := by
  rcases at?_alter_or hlocal happart with h | ⟨old, new, -, hnew⟩
  · exact ⟨inner, h.trans hplace⟩
  · exact ⟨new, hnew⟩

/-- At the changed place stands what the change has left under the last name. -/
theorem at?_alter_concat (h : folder.at? place = some (.directory inner)) (name : String) :
    (folder.alter change (place ++ [name])).at? (place ++ [name]) =
      (change inner name).lookup name := by
  induction place generalizing folder with
  | nil =>
      cases h
      rw [List.nil_append, at?_singleton, alter]
  | cons first place ih =>
      cases hfirst : folder.lookup first with
      | none =>
          rw [at?_cons_of_none hfirst] at h
          cases h
      | some e =>
          cases e with
          | file text mode =>
              rw [at?_cons_of_file hfirst] at h
              split at h <;> cases h
          | directory next =>
              rw [at?_cons_of_directory hfirst] at h
              rw [List.cons_append, alter_cons_of_directory hfirst (by simp)]
              rw [at?_cons_of_directory (by rw [lookup_put, if_pos rfl])]
              exact ih h

end Alter

/-- What is put into a directory is found there. -/
theorem at?_alter_put (h : folder.at? place = some (.directory inner)) (name : String)
    (entry : DiskEntry) :
    (folder.alter (fun folder name => folder.put name entry) (place ++ [name])).at?
      (place ++ [name]) = some entry := by
  rw [at?_alter_concat h, lookup_put, if_pos rfl]

/-- What is taken out of a directory is no longer there. -/
theorem at?_alter_drop (h : folder.at? place = some (.directory inner)) (name : String) :
    (folder.alter (fun folder name => folder.drop name) (place ++ [name])).at?
      (place ++ [name]) = none := by
  rw [at?_alter_concat h, lookup_drop, if_pos rfl]

/-- Of what stands somewhere below a directory, nothing is left when it is taken out. -/
theorem at?_alter_drop_self (hplace : place ≠ []) (h : folder.at? place = some entry) :
    (folder.alter (fun folder name => folder.drop name) place).at? place = none := by
  obtain ⟨above, name, rfl⟩ := (List.eq_nil_or_concat place).resolve_left hplace
  rw [List.concat_eq_append] at h ⊢
  obtain ⟨inner, hinner⟩ := exists_directory_of_at? h (by simp)
  exact at?_alter_drop hinner name

end Folder

end PklBindings
