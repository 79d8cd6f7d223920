import PklBindings.Emission
import PklBindings.Proofs.Collisions
import PklBindings.Proofs.Generation
import PklBindings.Proofs.MemberOrder
import PklBindings.Proofs.ModuleNames
import PklBindings.Proofs.WrittenFiles

/-!
# What an emission leaves on a disk

An emission that succeeds has written every document of the schema, and nothing else has happened to
the files of the disk (`Schema.emit_writes_documents`).
-/

namespace PklBindings

open DiskPath (IsPlain slash placeFrom)

/-! ## Names of files -/

/-- A namespace goes to a file in the output directory itself, whatever its name is. -/
theorem ModuleName.isPlain_fileName {suffix : String} (hslash : '/' ∉ suffix.toList)
    (hnul : '\x00' ∉ suffix.toList) (space : String) : IsPlain (fileName space suffix) := by
  have hending : 'y' ∈ (fileName space suffix).toList := by
    rw [fileName, String.toList_append]
    exact List.mem_append_right _ (by decide)
  exact DiskPath.isPlain_of_mem hending (by decide)
    (notMem_fileName (by decide) (by decide) hslash space)
    (notMem_fileName (by decide) (by decide) hnul space)

/-! ## Emission -/

variable {schema : Schema} {options : Options} {ds : Diagnostics} {disk disk' : Disk}
  {emission : Emission}

/-- How an emission goes on any file system: nothing is written before all documents are there. -/
theorem Schema.run_emit {σ : Type} [FileSystem (StateM σ)] (schema : Schema) (options : Options)
    (ds : Diagnostics) (s : σ) :
    (schema.emit options ds : StateM σ Emission).run s =
      if options.outDir = "" then (⟨.error .noOutDir, ds, []⟩, s)
      else
        match (schema.generate options).run.run ds with
        | (.error e, ds') => (⟨.error (.generation e), ds', []⟩, s)
        | (.ok documents, ds') =>
          let ((recorded, result), s') :=
            (FileSystem.writeFiles options.policy (options.filesOf documents) :
              StateM σ (List String × Except WriteError Unit)).run s
          (⟨result.mapError .write, ds', recorded⟩, s') := by
  rw [emit]
  split
  · rfl
  · rcases (schema.generate options).run.run ds with ⟨_ | documents, ds'⟩ <;> rfl

/-- An emission that succeeds has generated documents and written all of them. -/
theorem Schema.exists_writeFiles_of_emit
    (hrun : (schema.emit options ds : StateM Disk Emission).run disk = (emission, disk'))
    (hdone : emission.result = .ok ()) :
    options.outDir ≠ "" ∧
      ∃ documents, (schema.generate options).run.run ds = (.ok documents, emission.diagnostics) ∧
        (FileSystem.writeFiles options.policy (options.filesOf documents) :
          StateM Disk (List String × Except WriteError Unit)).run disk =
            ((emission.recorded, .ok ()), disk') := by
  rw [run_emit] at hrun
  split at hrun
  · cases hrun
    cases hdone
  · rename_i houtDir
    refine ⟨houtDir, ?_⟩
    split at hrun
    · cases hrun
      cases hdone
    · rename_i documents remarks hgenerate
      split at hrun
      rename_i recorded result left hfiles
      cases hrun
      obtain rfl := mapError_eq_ok_iff.1 hdone
      exact ⟨documents, hgenerate, hfiles⟩

/-- Every document goes to a file in the output directory itself. -/
theorem Schema.isPlain_of_generate {documents : List Document} {ds' : Diagnostics}
    (hsuffix : '/' ∉ options.fileSuffix.toList ∧ '\x00' ∉ options.fileSuffix.toList)
    (hgenerate : (schema.generate options).run.run ds = (.ok documents, ds')) :
    ∀ d ∈ documents, IsPlain d.fileName := by
  intro d hd
  rw [fileName_of_generate hgenerate d hd]
  exact ModuleName.isPlain_fileName hsuffix.1 hsuffix.2 d.space

/-- The files of documents stand side by side, behind what the output directory is spelt like
without a slash at its end. -/
theorem Options.exists_filesOf_eq (houtDir : options.outDir ≠ "")
    (hnul : '\x00' ∉ options.outDir.toList) {documents : List Document}
    (hplain : ∀ d ∈ documents, IsPlain d.fileName) :
    ∃ stem, '\x00' ∉ stem.toList ∧
      (∀ d ∈ documents, DiskPath.join options.outDir d.fileName = slash stem d.fileName) ∧
      options.filesOf documents = documents.map fun d => (slash stem d.fileName, d.text) := by
  obtain ⟨stem, hstem, -, hjoin⟩ := DiskPath.exists_join_eq_slash houtDir
  refine ⟨stem, fun h => hnul (hstem _ h), fun d hd => hjoin _ (hplain d hd), ?_⟩
  rw [filesOf]
  refine List.map_congr_left ?_
  intro d hd
  rw [hjoin _ (hplain d hd)]

/-- After an emission that succeeds, each document is in its file in the output directory, and has
the access rights of the policy. The outputs that were recorded are these files by their absolute
paths, each once and in the order of the modules. All other files are as they were. -/
theorem Schema.emit_writes_documents (hdry : options.policy.dryRun = false)
    (hnul : '\x00' ∉ options.outDir.toList)
    (hsuffix : '/' ∉ options.fileSuffix.toList ∧ '\x00' ∉ options.fileSuffix.toList)
    (hwork : DiskPath.AreNames disk.workPlace)
    (hrun : (schema.emit options ds : StateM Disk Emission).run disk = (emission, disk'))
    (hdone : emission.result = .ok ()) :
    ∃ documents places,
      (schema.generate options).run.run ds = (.ok documents, emission.diagnostics) ∧
      List.Forall₂ (fun m d => m.space schema.bindings = .ok d.space) schema.modules documents ∧
      List.Forall₂ (fun d place => disk'.find (DiskPath.join options.outDir d.fileName) =
        .entry place (.file d.text (options.policy.fileMode &&& 0o777))) documents places ∧
      emission.recorded = documents.map (fun d => DiskPath.resolve (Disk.pathOf disk.workPlace)
        (DiskPath.join options.outDir d.fileName)) ∧
      emission.recorded = places.map Disk.pathOf ∧
      emission.recorded.Nodup ∧
      ∀ place ∉ places, ∀ text mode, disk.at? place = some (.file text mode) →
        disk'.at? place = some (.file text mode) := by
  obtain ⟨houtDir, documents, hgenerate, hwrite⟩ := exists_writeFiles_of_emit hrun hdone
  have hplain := isPlain_of_generate hsuffix hgenerate
  have hnodup := fileNames_nodup_of_generate hgenerate
  obtain ⟨stem, hstem, hjoin, hfiles⟩ := Options.exists_filesOf_eq houtDir hnul hplain
  have hkept := Spares.writeFiles options.policy (options.filesOf documents) disk rfl
  rw [hwrite] at hkept
  rw [hfiles] at hwrite hkept
  -- All files are written in one directory, under names of their own.
  obtain ⟨hrecorded, hall⟩ := Disk.files_of_writeFiles hdry hstem hplain hnodup hwrite
  refine ⟨documents, documents.map fun d => placeFrom disk.workPlace (slash stem d.fileName),
    hgenerate, ?_, ?_, ?_, ?_, ?_, ?_⟩
  · exact (forall₂_written_of_generate hgenerate).imp fun m d ⟨members, hwritten⟩ =>
      hwritten.space_eq
  · rw [List.forall₂_map_right_iff, List.forall₂_same]
    intro d hd
    obtain ⟨hopens, hfile⟩ := hall d hd
    rw [hjoin d hd, hopens.find_eq hstem (hplain d hd), hkept.workPlace_eq, hfile]
    rfl
  · rw [hrecorded]
    refine List.map_congr_left ?_
    intro d hd
    rw [hjoin d hd]
  · rw [hrecorded, List.map_map]
    refine List.map_congr_left ?_
    intro d hd
    exact DiskPath.resolve_slash hwork hstem (hplain d hd)
  · rw [hrecorded]
    exact DiskPath.nodup_map_resolve_slash hwork hstem hplain hnodup
  · intro place hplace text mode hfile
    refine hkept.at?_eq place ?_ text mode hfile
    simpa only [List.map_map, Function.comp_def] using hplace

/-! ## A module that is written anew -/

/-- A module with nothing but its module class. -/
def noteModule : Module where
  name := "m"
  declarations := [{ kind := .moduleClass, name := "M", moduleName := "m" }]

/-- The schema of the module. -/
def noteSchema : Schema where
  modules := [noteModule]
  bindings := ⟨[{ kind := .moduleClass, source := "m", space := "m", name := "ModuleClass" }]⟩

/-- A disk with an old file of the module, which is read-only, and with another file. -/
def noteDisk : Disk where
  workPlace := ["work"]
  root := [
    ("work", .directory [
      ("out", .directory [("m_pkl.py", .file "old" 0o444)]),
      ("notes", .file "of mine" 0o600)])]

theorem generate_noteSchema : ∃ document ds,
    (noteSchema.generate { outDir := "out" }).run.run [] = (.ok [document], ds) ∧
      document.fileName = "m_pkl.py" := by
  obtain ⟨members, harranged, hends⟩ : ∃ members,
      noteModule.Arranged (Module.target noteSchema.bindings { outDir := "out" } "m") members ∧
        Document.endsWithModuleClass members = true := by
    refine ⟨_, ⟨?_, rfl, (Collision.all_eq_nil_iff _).2 (by decide), _, rfl,
      (Member.ordered_of_sorted (by decide)).trans rfl⟩, rfl⟩
    simp only [noteModule, List.forall_mem_cons]
    exact ⟨⟨_, rfl, rfl⟩, by simp⟩
  obtain ⟨document, hspace, hwritten⟩ := Written.exists_of_arranged rfl harranged hends
  obtain ⟨ds, hrun⟩ : ∃ ds, (Schema.documentsFrom noteSchema.bindings { outDir := "out" } []
      noteSchema.modules).run.run [] = (.ok [document], ds) :=
    ⟨_, Schema.run_documentsFrom_cons_eq_ok_iff.2
      ⟨⟨"m", _, "m"⟩, document, [], members, rfl, rfl, hspace, hwritten, rfl⟩⟩
  refine ⟨document, ds, Schema.run_generate_eq_ok_iff.2 ⟨by decide, hrun⟩, ?_⟩
  rw [hwritten.fileName_eq, hspace]
  rfl

/-- The old file is replaced. -/
theorem emit_writes_documents_noteSchema :
    ∃ emission disk', (noteSchema.emit { outDir := "out" } [] : StateM Disk Emission).run noteDisk =
        (emission, disk') ∧
      emission.result = .ok () ∧
      ∃ documents places,
        (noteSchema.generate { outDir := "out" }).run.run [] =
          (.ok documents, emission.diagnostics) ∧
        List.Forall₂ (fun m d => m.space noteSchema.bindings = .ok d.space) noteSchema.modules
          documents ∧
        List.Forall₂ (fun d place => disk'.find (DiskPath.join "out" d.fileName) =
          .entry place (.file d.text (0o444 &&& 0o777))) documents places ∧
        emission.recorded = documents.map (fun d =>
          DiskPath.resolve (Disk.pathOf noteDisk.workPlace) (DiskPath.join "out" d.fileName)) ∧
        emission.recorded = places.map Disk.pathOf ∧
        emission.recorded.Nodup ∧
        ∀ place ∉ places, ∀ text mode, noteDisk.at? place = some (.file text mode) →
          disk'.at? place = some (.file text mode) := by
  obtain ⟨document, ds, hgenerate, hfile⟩ := generate_noteSchema
  obtain ⟨emission, disk', hrun, hdone⟩ : ∃ emission disk',
      (noteSchema.emit { outDir := "out" } [] : StateM Disk Emission).run noteDisk =
        (emission, disk') ∧ emission.result = .ok () := by
    rw [Schema.emit, if_neg (by decide), hgenerate]
    dsimp only
    rw [Options.filesOf, List.map_singleton, hfile]
    exact ⟨_, _, rfl, rfl⟩
  have hwork : DiskPath.AreNames noteDisk.workPlace := by
    simp [DiskPath.AreNames, noteDisk]
  exact ⟨emission, disk', hrun, hdone, Schema.emit_writes_documents rfl (by decide)
    ⟨by decide, by decide⟩ hwork hrun hdone⟩

end PklBindings
