import Mathlib.Data.List.Nodup
import Mathlib.Data.List.TakeWhile
import PklBindings.Disk.Basic
import PklBindings.Proofs.Texts

/-!
# Paths of files

The path of a file is that of a directory, a slash and a plain name. Such a path has the names of
the directory before the last one (`DiskPath.names_slash`), and its absolute path is that of the
place which its names lead to (`DiskPath.resolve_slash`).
-/

namespace PklBindings

namespace DiskPath

/-- A name of something in a directory. -/
structure IsPlain (name : String) : Prop where
  ne_empty : name ≠ ""
  ne_dot : name ≠ "."
  ne_dots : name ≠ ".."
  slash_notMem : '/' ∉ name.toList
  nul_notMem : '\x00' ∉ name.toList

/-- The path of a name in a directory. -/
def slash (directory name : String) : String :=
  directory ++ "/" ++ name

variable {directory name : String} {cs ds : List Char} {above : List String}

theorem toList_slash (directory name : String) :
    (slash directory name).toList = directory.toList ++ '/' :: name.toList := by
  rw [slash, String.toList_append, String.toList_append, List.append_assoc]
  rfl

theorem slash_ne_empty (directory name : String) : slash directory name ≠ "" := by
  intro hempty
  have hchars := congrArg String.toList hempty
  rw [toList_slash] at hchars
  simp at hchars

/-! ## Names -/

theorem splitSlashes_append (cs ds : List Char) :
    splitSlashes (cs ++ '/' :: ds) = splitSlashes cs ++ splitSlashes ds := by
  induction cs with
  | nil => rfl
  | cons c cs ih =>
      rw [List.cons_append, splitSlashes, splitSlashes]
      split
      · rw [ih, List.cons_append]
      · rw [ih]
        cases hpieces : splitSlashes cs with
        | nil =>
            -- There is a piece in any text.
            cases cs with
            | nil => cases hpieces
            | cons first cs =>
                rw [splitSlashes] at hpieces
                split at hpieces
                · cases hpieces
                · split at hpieces <;> cases hpieces
        | cons piece pieces => rfl

theorem splitSlashes_of_notMem (h : '/' ∉ cs) : splitSlashes cs = [cs] := by
  induction cs with
  | nil => rfl
  | cons c cs ih =>
      rw [List.mem_cons, not_or] at h
      rw [splitSlashes, if_neg (Ne.symm h.1), ih h.2]

theorem names_slash (directory name : String) :
    names (slash directory name) = names directory ++ names name := by
  rw [names, names, names, toList_slash, splitSlashes_append, List.map_append]

theorem names_of_notMem (h : '/' ∉ name.toList) : names name = [name] := by
  rw [names, splitSlashes_of_notMem h, List.map_singleton, String.ofList_toList]

theorem isAbsolute_slash (directory name other : String) :
    isAbsolute (slash directory name) = isAbsolute (slash directory other) := by
  rw [isAbsolute, isAbsolute, toList_slash, toList_slash]
  cases directory.toList <;> rfl

theorem isAbsolute_slash_of_ne_empty (h : directory ≠ "") (name : String) :
    isAbsolute (slash directory name) = isAbsolute directory := by
  have hne : directory.toList ≠ [] := by simpa using h
  rw [isAbsolute, isAbsolute, toList_slash, List.head?_append_of_ne_nil _ hne]

theorem forall_ne_slash_of_notMem (h : '/' ∉ cs) :
    ∀ c ∈ cs.reverse, decide (c ≠ '/') = true := by
  intro c hc
  rw [decide_eq_true_eq]
  rintro rfl
  exact h (List.mem_reverse.1 hc)

theorem lastName_slash (h : '/' ∉ name.toList) : lastName (slash directory name) = name := by
  have hstop : List.takeWhile (fun c => decide (c ≠ '/')) ('/' :: directory.toList.reverse) = [] :=
    rfl
  rw [lastName, toList_slash, List.reverse_append, List.reverse_cons, List.append_assoc,
    List.singleton_append, List.takeWhile_append_of_pos (forall_ne_slash_of_notMem h), hstop,
    List.append_nil, List.reverse_reverse, String.ofList_toList]

theorem endsWithSlash_slash (hname : name ≠ "") (h : '/' ∉ name.toList) :
    endsWithSlash (slash directory name) = false := by
  have hne : name.toList ≠ [] := by simpa using hname
  have hlast : (slash directory name).toList.getLast? = name.toList.getLast? := by
    rw [toList_slash, List.getLast?_append_cons, List.getLast?_cons_of_ne_nil hne]
  rw [endsWithSlash, hlast, decide_eq_false_iff_not]
  intro hslash
  exact h (List.mem_of_mem_getLast? hslash)

theorem exists_eq_append_replicate (cs : List Char) :
    ∃ count, cs = (cs.reverse.dropWhile (· = '/')).reverse ++ List.replicate count '/' := by
  have hslashes : ∀ c ∈ cs.reverse.takeWhile (· = '/'), c = '/' := by
    intro c hc
    simpa using List.mem_takeWhile_imp hc
  refine ⟨(cs.reverse.takeWhile (· = '/')).length, ?_⟩
  rw [← List.reverse_replicate, ← List.eq_replicate_of_mem hslashes, ← List.reverse_append,
    List.takeWhile_append_dropWhile, List.reverse_reverse]

theorem parent_slash (h : '/' ∉ name.toList) (directory : String) :
    parent (slash directory name) =
      match directory.toList.reverse.dropWhile (· = '/') with
      | [] => "/"
      | rest => .ofList rest.reverse := by
  have hhead : (slash directory name).toList.reverse.dropWhile (· ≠ '/') =
      '/' :: directory.toList.reverse := by
    rw [toList_slash, List.reverse_append, List.reverse_cons, List.append_assoc,
      List.singleton_append, List.dropWhile_append_of_pos (forall_ne_slash_of_notMem h)]
    rfl
  have hslash : ('/' :: directory.toList.reverse).dropWhile (· = '/') =
    directory.toList.reverse.dropWhile (· = '/') := rfl
  rw [parent, hhead, hslash]
  cases directory.toList.reverse.dropWhile (· = '/') <;> rfl

/-- The path above that of a file is the root, or what is left of the directory without the slashes
at its end. -/
theorem parent_slash_cases (h : '/' ∉ name.toList) (directory : String) :
    parent (slash directory name) = "/" ∨
      parent (slash directory name) ≠ "" ∧ (directory = parent (slash directory name) ∨
        ∃ rest, directory = slash (parent (slash directory name)) rest) := by
  obtain ⟨count, hcount⟩ := exists_eq_append_replicate directory.toList
  rw [parent_slash h]
  cases hkept : directory.toList.reverse.dropWhile (· = '/') with
  | nil => exact .inl rfl
  | cons c cs =>
      rw [hkept] at hcount
      refine .inr ⟨?_, ?_⟩
      · intro hempty
        have hchars := congrArg String.toList hempty
        simp at hchars
      · cases count with
        | zero =>
            refine .inl (String.toList_injective ?_)
            rw [hcount, String.toList_ofList, List.replicate_zero, List.append_nil]
        | succ count =>
            refine .inr ⟨.ofList (List.replicate count '/'), String.toList_injective ?_⟩
            rw [toList_slash, String.toList_ofList, String.toList_ofList, hcount]
            rfl

/-- A name is plain if it has other characters than dots in it. -/
theorem isPlain_of_mem {c : Char} (hmem : c ∈ name.toList) (hc : c ≠ '.')
    (hslash : '/' ∉ name.toList) (hnul : '\x00' ∉ name.toList) : IsPlain name := by
  have hne : ∀ other : String, c ∉ other.toList → name ≠ other := by
    rintro other hother rfl
    exact hother hmem
  have hdot : ".".toList = ['.'] := rfl
  have hdots : "..".toList = ['.', '.'] := rfl
  refine ⟨hne _ (by simp), hne _ ?_, hne _ ?_, hslash, hnul⟩
  · rw [hdot]
    simpa using hc
  · rw [hdots]
    simpa using hc

/-- A path is cut at its last slash. -/
theorem exists_eq_slash {path : String} (h : '/' ∈ path.toList) :
    ∃ directory name, path = slash directory name ∧ '/' ∉ name.toList := by
  obtain ⟨after, before, hreverse, hafter⟩ :=
    List.eq_append_cons_of_mem (List.mem_reverse.2 h)
  have hpath : path.toList = before.reverse ++ '/' :: after.reverse := by
    rw [← List.reverse_reverse path.toList, hreverse]
    simp
  refine ⟨.ofList before.reverse, .ofList after.reverse, String.toList_injective ?_, ?_⟩
  · rw [toList_slash, String.toList_ofList, String.toList_ofList, hpath]
  · rw [String.toList_ofList, List.mem_reverse]
    exact hafter

/-- Joining puts something in front of a path, and there is a slash in what comes of it. -/
theorem exists_join_eq_append (h : directory ≠ "") (path : String) :
    ∃ stem : String, join directory path = stem ++ path ∧
      (∀ c ∈ stem.toList, c ∈ directory.toList ∨ c = '/') ∧ '/' ∈ (stem ++ path).toList := by
  rw [join]
  split
  · rename_i habsolute
    have hhead : path.toList.head? = some '/' := by simpa [h, isAbsolute] using habsolute
    exact ⟨"", by simp, by simp, by simpa using List.mem_of_mem_head? hhead⟩
  · split
    · rename_i hends
      have hlast : directory.toList.getLast? = some '/' := by simpa [endsWithSlash] using hends
      refine ⟨directory, rfl, fun c hc => .inl hc, ?_⟩
      rw [String.toList_append]
      exact List.mem_append_left _ (List.mem_of_mem_getLast? hlast)
    · refine ⟨directory ++ "/", rfl, ?_, ?_⟩
      · intro c hc
        simpa using hc
      · simp

/-- Joining a directory and a plain name puts one slash between them, or takes the one that is at
the end of the directory. -/
theorem exists_join_eq_slash (h : directory ≠ "") :
    ∃ stem, (∀ c ∈ stem.toList, c ∈ directory.toList) ∧
      (directory = stem ∨ directory = slash stem "") ∧
      ∀ name, IsPlain name → join directory name = slash stem name := by
  have hrelative : ∀ name, IsPlain name →
      ¬ (isAbsolute name || decide (directory = "")) = true := by
    intro name hname
    have hhead : name.toList.head? ≠ some '/' := by
      intro hslash
      exact hname.slash_notMem (List.mem_of_mem_head? hslash)
    simp [isAbsolute, h, hhead]
  by_cases hends : endsWithSlash directory = true
  · -- The slash at the end of the directory is the one.
    have hlast : directory.toList.getLast? = some '/' := by simpa [endsWithSlash] using hends
    obtain ⟨stem, hstem⟩ := List.getLast?_eq_some_iff.1 hlast
    refine ⟨.ofList stem, fun c hc => ?_, .inr (String.toList_injective ?_), fun name hname => ?_⟩
    · rw [String.toList_ofList] at hc
      rw [hstem]
      exact List.mem_append_left _ hc
    · rw [toList_slash, hstem, String.toList_ofList]
      rfl
    · rw [join, if_neg (hrelative name hname), if_pos hends]
      refine String.toList_injective ?_
      rw [toList_slash, String.toList_append, hstem, String.toList_ofList, List.append_assoc]
      rfl
  · refine ⟨directory, fun c hc => hc, .inl rfl, fun name hname => ?_⟩
    rw [join, if_neg (hrelative name hname), if_neg hends, slash]

/-! ## Walking along names

A name may leave a walk where it is, take it one directory up, or take it into a directory. -/

/-- The name stands for the directory that it is looked up in. -/
abbrev Stays (name : String) : Prop :=
  (name = "" || name = ".") = true

theorem IsPlain.not_stays (hname : IsPlain name) : ¬ Stays name := by
  simp [Stays, hname.ne_empty, hname.ne_dot]

/-- Induction on names by what they do to a walk. -/
@[elab_as_elim]
theorem walk_induction {motive : List String → Prop} (nil : motive [])
    (stay : ∀ name names, Stays name → motive names → motive (name :: names))
    (up : ∀ names, motive names → motive (".." :: names))
    (enter : ∀ name names, ¬ Stays name → name ≠ ".." → motive names → motive (name :: names))
    (names : List String) : motive names := by
  induction names with
  | nil => exact nil
  | cons name names ih =>
      by_cases hstays : Stays name
      · exact stay name names hstays ih
      · by_cases hup : name = ".."
        · rw [hup]
          exact up names ih
        · exact enter name names hstays hup ih

section FollowDots

variable {names : List String}

theorem followDots_stay (h : Stays name) :
    followDots above (name :: names) = followDots above names :=
  if_pos h

theorem followDots_up : followDots above (".." :: names) = followDots above.tail names :=
  rfl

theorem followDots_enter (hstays : ¬ Stays name) (hup : name ≠ "..") :
    followDots above (name :: names) = followDots (name :: above) names :=
  (if_neg hstays).trans (if_neg hup)

theorem followDots_of_all_empty (h : names.all (· = "") = true) :
    followDots above names = above.reverse := by
  induction names with
  | nil => rfl
  | cons name names ih =>
      rw [List.all_cons, Bool.and_eq_true, decide_eq_true_eq] at h
      rw [followDots_stay (by simp [Stays, h.1]), ih h.2]

theorem followDots_concat (hname : IsPlain name) (above names : List String) :
    followDots above (names ++ [name]) = followDots above names ++ [name] := by
  induction names using walk_induction generalizing above with
  | nil =>
      rw [List.nil_append, followDots_enter hname.not_stays hname.ne_dots, followDots.eq_1,
        followDots.eq_1, List.reverse_cons]
  | stay first names hstays ih =>
      rw [List.cons_append, followDots_stay hstays, followDots_stay hstays, ih]
  | up names ih => rw [List.cons_append, followDots_up, followDots_up, ih]
  | enter first names hstays hup ih =>
      rw [List.cons_append, followDots_enter hstays hup, followDots_enter hstays hup, ih]

theorem followDots_concat_stay (h : Stays name) (above names : List String) :
    followDots above (names ++ [name]) = followDots above names := by
  induction names using walk_induction generalizing above with
  | nil => rw [List.nil_append, followDots_stay h]
  | stay first names hstays ih =>
      rw [List.cons_append, followDots_stay hstays, followDots_stay hstays, ih]
  | up names ih => rw [List.cons_append, followDots_up, followDots_up, ih]
  | enter first names hstays hup ih =>
      rw [List.cons_append, followDots_enter hstays hup, followDots_enter hstays hup, ih]

end FollowDots

/-! ## Absolute paths -/

/-- A file is not written with a slash at the end. -/
theorem normalize_slash (hname : IsPlain name) :
    normalize (slash directory name) = Disk.pathOf (followDots [] (names directory) ++ [name]) := by
  have hdots : isDots name = false := by simp [isDots, hname.ne_dot, hname.ne_dots]
  have hmark : ¬ (decide (name = "") || isDots name) = true := by simp [hname.ne_empty, hdots]
  rw [normalize, lastName_slash hname.slash_notMem, if_neg hmark, names_slash,
    names_of_notMem hname.slash_notMem, followDots_concat hname]
  split
  · rename_i hnil
    exact absurd hnil (by simp)
  · rw [String.append_empty, Disk.pathOf]

/-- Each of the names can be one in a path. -/
def AreNames (place : Place) : Prop :=
  ∀ name ∈ place, name ≠ "" ∧ '/' ∉ name.toList

theorem names_intercalate {place : Place} (hplace : AreNames place) (hne : place ≠ []) :
    names ("/".intercalate place) = place := by
  induction place with
  | nil => exact absurd rfl hne
  | cons first place ih =>
      rw [AreNames, List.forall_mem_cons] at hplace
      cases place with
      | nil => rw [String.intercalate_singleton, names_of_notMem hplace.1.2]
      | cons second place =>
          have hslash : "/".intercalate (first :: second :: place) =
              slash first ("/".intercalate (second :: place)) := String.intercalate_cons_cons
          rw [hslash, names_slash, names_of_notMem hplace.1.2, ih hplace.2 (by simp)]
          rfl

theorem intercalate_concat {place : Place} (hne : place ≠ []) (last : String) :
    "/".intercalate (place ++ [last]) = slash ("/".intercalate place) last := by
  induction place with
  | nil => exact absurd rfl hne
  | cons first place ih =>
      cases place with
      | nil =>
          rw [List.singleton_append, String.intercalate_cons_cons, String.intercalate_singleton,
            String.intercalate_singleton, slash]
      | cons second place =>
          rw [List.cons_append, List.cons_append, String.intercalate_cons_cons,
            String.intercalate_cons_cons, ← List.cons_append, ih (by simp), slash, slash]
          simp only [String.append_assoc]

/-- The path of a place ends with the last name of it. -/
theorem exists_pathOf_concat (place : Place) :
    ∃ stem, ∀ last, Disk.pathOf (place ++ [last]) = slash stem last := by
  by_cases hne : place = []
  · refine ⟨"", fun last => ?_⟩
    rw [hne, List.nil_append, Disk.pathOf, String.intercalate_singleton]
    rfl
  · refine ⟨Disk.pathOf place, fun last => ?_⟩
    rw [Disk.pathOf, Disk.pathOf, intercalate_concat hne, slash, slash]
    simp only [String.append_assoc]

theorem pathOf_concat_inj {place : Place} {last last' : String} :
    Disk.pathOf (place ++ [last]) = Disk.pathOf (place ++ [last']) ↔ last = last' := by
  obtain ⟨stem, hstem⟩ := exists_pathOf_concat place
  rw [hstem, hstem, slash, slash, String.append_right_inj]

theorem endsWithSlash_pathOf {place : Place} (hplace : AreNames place) (hne : place ≠ []) :
    endsWithSlash (Disk.pathOf place) = false := by
  obtain ⟨above, last, rfl⟩ := (List.eq_nil_or_concat place).resolve_left hne
  rw [List.concat_eq_append] at hplace ⊢
  obtain ⟨hempty, hslash⟩ := hplace last (by simp)
  obtain ⟨stem, hstem⟩ := exists_pathOf_concat above
  rw [hstem]
  exact endsWithSlash_slash hempty hslash

/-- A relative path of a file, taken from a directory. -/
theorem exists_join_pathOf {work : Place} (hwork : AreNames work)
    (hrelative : isAbsolute (slash directory name) = false) :
    ∃ stem, join (Disk.pathOf work) (slash directory name) = slash stem name ∧
      names stem = "" :: work ++ names directory := by
  have hroot : Disk.pathOf work ≠ "" := by simp [Disk.pathOf]
  have hjoin : ¬ (isAbsolute (slash directory name) || decide (Disk.pathOf work = "")) = true := by
    simp [hrelative, hroot]
  rw [join, if_neg hjoin]
  by_cases hne : work = []
  · -- The path of the root is the one that ends with a slash.
    subst hne
    refine ⟨slash "" directory, ?_, names_slash "" directory⟩
    rw [if_pos (by rfl), slash, slash, slash]
    simp only [String.append_assoc]
    rfl
  · have hends : ¬ endsWithSlash (Disk.pathOf work) = true := by
      rw [endsWithSlash_pathOf hwork hne]
      exact Bool.false_ne_true
    refine ⟨slash (Disk.pathOf work) directory, ?_, ?_⟩
    · rw [if_neg hends, slash, slash, slash]
      simp only [String.append_assoc]
    · have hpath : Disk.pathOf work = slash "" ("/".intercalate work) := rfl
      rw [names_slash, hpath, names_slash, names_intercalate hwork hne]
      rfl

/-! ## Paths from a directory -/

variable {work : Place}

/-- The names that lead from the root of the disk to where a path leads, which is taken from a
place. -/
def namesFrom (work : Place) (path : String) : List String :=
  if isAbsolute path then names path else work ++ names path

/-- The place of a path, once the dots on the way are followed. Only the part before the first NUL
counts. -/
def placeFrom (work : Place) (path : String) : Place :=
  followDots [] (namesFrom work (Text.untilNul path))

/-- The names to walk from the root of the disk to a directory that a slash follows. -/
def wayFrom (work : Place) (directory : String) : List String :=
  if isAbsolute (slash directory "") then names directory else work ++ names directory

theorem namesFrom_slash (h : '/' ∉ name.toList) :
    namesFrom work (slash directory name) = wayFrom work directory ++ [name] := by
  rw [namesFrom, wayFrom, isAbsolute_slash directory name "", names_slash, names_of_notMem h]
  split
  · rfl
  · rw [List.append_assoc]

/-- The way to a directory leads through the directory that it is without the slashes at its
end. -/
theorem exists_wayFrom_eq {up : String} (hup : up ≠ "")
    (h : directory = up ∨ ∃ rest, directory = slash up rest) (work : Place) :
    ∃ more, wayFrom work directory = namesFrom work up ++ more := by
  rcases h with rfl | ⟨rest, rfl⟩
  · refine ⟨[], ?_⟩
    rw [wayFrom, namesFrom, isAbsolute_slash_of_ne_empty hup, List.append_nil]
  · have hslash : slash up rest ≠ "" := by
      intro hempty
      have hchars := congrArg String.toList hempty
      rw [toList_slash] at hchars
      simp at hchars
    refine ⟨names rest, ?_⟩
    rw [wayFrom, namesFrom, isAbsolute_slash_of_ne_empty hslash, isAbsolute_slash_of_ne_empty hup,
      names_slash]
    split
    · rfl
    · rw [List.append_assoc]

theorem untilNul_slash (hdirectory : '\x00' ∉ directory.toList) (hname : IsPlain name) :
    Text.untilNul (slash directory name) = slash directory name := by
  refine Text.untilNul_of_notMem ?_
  rw [toList_slash, List.mem_append, List.mem_cons]
  rintro (hc | hc | hc)
  · exact hdirectory hc
  · cases hc
  · exact hname.nul_notMem hc

theorem placeFrom_slash (work : Place) (hdirectory : '\x00' ∉ directory.toList)
    (hname : IsPlain name) :
    placeFrom work (slash directory name) = followDots [] (wayFrom work directory) ++ [name] := by
  rw [placeFrom, untilNul_slash hdirectory hname, namesFrom_slash hname.slash_notMem,
    followDots_concat hname]

/-- A file of a plain name stands in the directory that it is joined to. -/
theorem placeFrom_join (hdirectory : directory ≠ "") (hnul : '\x00' ∉ directory.toList)
    (hname : IsPlain name) (work : Place) :
    placeFrom work (join directory name) = placeFrom work directory ++ [name] := by
  obtain ⟨stem, hchars, hstem, hjoin⟩ := exists_join_eq_slash hdirectory
  have hway : followDots [] (wayFrom work stem) = followDots [] (namesFrom work directory) := by
    rcases hstem with rfl | rfl
    · rw [wayFrom, namesFrom, isAbsolute_slash_of_ne_empty hdirectory]
    · -- The slash at the end of the directory has an empty name behind it.
      rw [namesFrom_slash (List.not_mem_nil), followDots_concat_stay (by decide)]
  rw [hjoin name hname, placeFrom_slash work (fun h => hnul (hchars _ h)) hname, hway, placeFrom,
    Text.untilNul_of_notMem hnul]

/-- The absolute path of a file is the path of its place. -/
theorem resolve_slash (hwork : AreNames work) (hdirectory : '\x00' ∉ directory.toList)
    (hname : IsPlain name) :
    resolve (Disk.pathOf work) (slash directory name) =
      Disk.pathOf (placeFrom work (slash directory name)) := by
  rw [resolve, if_neg (slash_ne_empty directory name), placeFrom_slash work hdirectory hname,
    wayFrom, isAbsolute_slash directory "" name]
  split
  · rename_i habsolute
    rw [join, if_pos (by rw [habsolute, Bool.true_or]), normalize_slash hname]
  · rename_i hrelative
    obtain ⟨stem, hjoin, hnames⟩ := exists_join_pathOf hwork (Bool.not_eq_true _ ▸ hrelative)
    rw [hjoin, normalize_slash hname, hnames]
    rfl

/-- Plain names in one directory have absolute paths of their own. -/
theorem nodup_map_resolve_slash (hwork : AreNames work) (hdirectory : '\x00' ∉ directory.toList)
    {α : Type} {nameOf : α → String} {as : List α} (hplain : ∀ a ∈ as, IsPlain (nameOf a))
    (hnodup : (as.map nameOf).Nodup) :
    (as.map fun a => resolve (Disk.pathOf work) (slash directory (nameOf a))).Nodup := by
  have hpaths : (as.map fun a => resolve (Disk.pathOf work) (slash directory (nameOf a))) =
      (as.map nameOf).map fun name =>
        Disk.pathOf (followDots [] (wayFrom work directory) ++ [name]) := by
    rw [List.map_map]
    refine List.map_congr_left ?_
    intro a ha
    rw [resolve_slash hwork hdirectory (hplain a ha),
      placeFrom_slash work hdirectory (hplain a ha)]
    rfl
  rw [hpaths]
  refine List.Nodup.map ?_ hnodup
  intro name name' h
  exact pathOf_concat_inj.1 h

end DiskPath

end PklBindings
