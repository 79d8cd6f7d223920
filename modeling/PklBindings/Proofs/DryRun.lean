import PklBindings.Proofs.CommandLineRuns
import PklBindings.TextReader.Strict

/-!
# Dry runs

What a dry run tells of the run that it stands for. It reads the same schema and generates the same
documents, and it records the outputs at the point where they would be written, so an emission that
is done is the same as a dry one (`Schema.run_emit_of_dryRun`). Every recorded path is that of a
place, and at these places, and at no others, the emission has left its files
(`Schema.exists_places_of_emit`).
-/

namespace PklBindings

open DiskPath (IsPlain slash placeFrom)

/-! ## Paths of outputs -/

/-- An output is a file of a plain name in some directory, also when there are slashes in the
suffix. -/
theorem ModuleName.exists_join_fileName_eq {outDir suffix : String} (houtDir : outDir ≠ "")
    (hnul : '\x00' ∉ outDir.toList) (hsuffix : '\x00' ∉ suffix.toList) (space : String) :
    ∃ directory name, DiskPath.join outDir (fileName space suffix) = slash directory name ∧
      '\x00' ∉ directory.toList ∧ IsPlain name := by
  obtain ⟨stem, hjoin, hstem, hslash⟩ :=
    DiskPath.exists_join_eq_append houtDir (fileName space suffix)
  obtain ⟨directory, name, hpath, hname⟩ := DiskPath.exists_eq_slash hslash
  -- No NUL is in the path, so there is none in its parts.
  have hfree : '\x00' ∉ (slash directory name).toList := by
    rw [← hpath, String.toList_append, List.mem_append, not_or]
    refine ⟨fun h => ?_, notMem_fileName (by decide) (by decide) hsuffix space⟩
    rcases hstem _ h with h | h
    · exact hnul h
    · exact absurd h (by decide)
  rw [DiskPath.toList_slash, List.mem_append, List.mem_cons] at hfree
  simp only [not_or] at hfree
  -- The path ends with a letter, so there is one in its last name.
  have hlast : (slash directory name).toList.getLast? = some 'y' := by
    have hending : ".py".toList = ['.', 'p'] ++ ['y'] := rfl
    rw [← hpath, fileName, String.toList_append, String.toList_append, hending,
      ← List.append_assoc, ← List.append_assoc, List.getLast?_concat]
  have hletter : 'y' ∈ name.toList := by
    rw [DiskPath.toList_slash, List.getLast?_append_cons] at hlast
    have hmem := List.mem_of_getLast? hlast
    simpa using hmem
  exact ⟨directory, name, hjoin.trans hpath, hfree.1,
    DiskPath.isPlain_of_mem hletter (by decide) hname hfree.2.2⟩

/-- The absolute path of an output is that of the place which its path leads to. -/
theorem ModuleName.resolve_join_fileName {outDir suffix : String} {work : Place}
    (houtDir : outDir ≠ "") (hnul : '\x00' ∉ outDir.toList) (hsuffix : '\x00' ∉ suffix.toList)
    (hwork : DiskPath.AreNames work) (space : String) :
    DiskPath.resolve (Disk.pathOf work) (DiskPath.join outDir (fileName space suffix)) =
      Disk.pathOf (placeFrom work (DiskPath.join outDir (fileName space suffix))) := by
  obtain ⟨directory, name, hpath, hdirectory, hname⟩ :=
    exists_join_fileName_eq houtDir hnul hsuffix space
  rw [hpath]
  exact DiskPath.resolve_slash hwork hdirectory hname

/-- The absolute path of the file of a document, if relative paths are taken from a place. -/
def Options.outputPath (options : Options) (work : Place) (d : Document) : String :=
  DiskPath.resolve (Disk.pathOf work) (DiskPath.join options.outDir d.fileName)

namespace Schema

variable {schema : Schema} {options : Options} {ds : Diagnostics} {disk disk' : Disk}
  {emission : Emission}

/-- How files are put on the disk makes no difference to the documents. -/
theorem documentsFrom_policy (bindings : BindingTable) (options : Options) (policy : WritePolicy)
    (earlier : List Claim) (ms : List Module) :
    documentsFrom bindings { options with policy } earlier ms =
      documentsFrom bindings options earlier ms := by
  induction ms generalizing earlier with
  | nil => rfl
  | cons m ms ih =>
      rw [documentsFrom, documentsFrom]
      simp only [ih]
      rfl

theorem generate_policy (schema : Schema) (options : Options) (policy : WritePolicy) :
    schema.generate { options with policy } = schema.generate options := by
  rw [generate, generate, documentsFrom_policy]

/-- An emission that is done is the same when it is dry, but for the disk. -/
theorem run_emit_of_dryRun
    (hrun : (schema.emit options ds : StateM Disk Emission).run disk = (emission, disk'))
    (hdone : emission.result = .ok ()) :
    (schema.emit { options with policy.dryRun := true } ds : StateM Disk Emission).run disk =
      (emission, disk) := by
  obtain ⟨houtDir, documents, hgenerate, hwrite⟩ := exists_writeFiles_of_emit hrun hdone
  have hdry : (FileSystem.writeFiles { options.policy with dryRun := true }
      (options.filesOf documents) : StateM Disk (List String × Except WriteError Unit)).run disk =
        ((emission.recorded, .ok ()), disk) := by
    rw [Disk.recorded_of_writeFiles hwrite]
    exact Disk.run_writeFiles_of_dryRun rfl _ disk
  have hfiles : Options.filesOf { options with policy.dryRun := true } documents =
      options.filesOf documents := rfl
  rw [run_emit, if_neg houtDir, generate_policy, hgenerate]
  dsimp only
  rw [hfiles, hdry]
  dsimp only
  rw [mapError_eq_ok_iff.2 rfl, ← hdone]

/-- Where an emission that is done has put its files. At every place that was recorded is the text
of a document that goes there, and elsewhere the files of the disk are the same as before. -/
theorem exists_places_of_emit (hdry : options.policy.dryRun = false)
    (hnul : '\x00' ∉ options.outDir.toList) (hsuffix : '\x00' ∉ options.fileSuffix.toList)
    (hwork : DiskPath.AreNames disk.workPlace)
    (hrun : (schema.emit options ds : StateM Disk Emission).run disk = (emission, disk'))
    (hdone : emission.result = .ok ()) :
    ∃ documents places,
      (schema.generate options).run.run ds = (.ok documents, emission.diagnostics) ∧
      emission.recorded = documents.map (options.outputPath disk.workPlace) ∧
      emission.recorded = places.map Disk.pathOf ∧
      (∀ place ∈ places, ∃ d ∈ documents,
        options.outputPath disk.workPlace d = Disk.pathOf place ∧
        disk'.at? place = some (.file d.text options.policy.accessRights)) ∧
      Disk.SameFiles places disk disk' := by
  obtain ⟨houtDir, documents, hgenerate, hwrite⟩ := exists_writeFiles_of_emit hrun hdone
  have hrecorded := Disk.recorded_of_writeFiles hwrite
  have hkept := Spares.writeFiles options.policy (options.filesOf documents) disk rfl
  rw [hwrite] at hkept
  have hpath : ∀ d ∈ documents, options.outputPath disk.workPlace d =
      Disk.pathOf (placeFrom disk.workPlace (DiskPath.join options.outDir d.fileName)) := by
    intro d hd
    rw [Options.outputPath, fileName_of_generate hgenerate d hd]
    exact ModuleName.resolve_join_fileName houtDir hnul hsuffix hwork d.space
  refine ⟨documents, _, hgenerate, ?_, ?_, ?_, hkept⟩
  · rw [hrecorded, Options.filesOf, List.map_map]
    rfl
  · rw [hrecorded, List.map_map]
    refine List.map_congr_left ?_
    intro file hfile
    obtain ⟨d, hd, rfl⟩ := List.mem_map.1 hfile
    exact hpath d hd
  · intro place hplace
    obtain ⟨file, hfile, rfl, hat⟩ := Disk.exists_file_of_writeFiles hdry hwrite place hplace
    obtain ⟨d, hd, rfl⟩ := List.mem_map.1 hfile
    exact ⟨d, hd, hpath d hd, hat⟩

end Schema

namespace CommandLine

variable {reader : TextReader} {arguments : List String} {disk disk' : Disk} {result : RunResult}

/-- A disk with a schema file of one module that has nothing but its module class. -/
def schemaDisk : Disk where
  workPlace := ["work"]
  root := [("work", .directory [("m.json", .file
    ("\x7b\"modules\":[\x7b\"name\":\"m\",\"declarations\":[" ++
      "\x7b\"kind\":\"module\",\"name\":\"M\"\x7d]\x7d]\x7d") 0o644)])]

/-- Arguments with a slash in the suffix. -/
def slashArguments : List String :=
  ["m.json", "--out-dir", "out", "--suffix", "a/b"]

end CommandLine

end PklBindings
