import PklBindings.Proofs.EmittedFiles

/-!
# Runs that are mirrored on a disk

A file system of files and directories on which no action fails, but that a file which is there may
refuse to be written to (`FileSystem.Serves`). A file is written to only after it was removed
(`Disk.status_ne_file_of_clearWay`), so no run meets with a refusal: an emission goes as on the disk
of the file system by itself (`FileSystem.Serves.emit`).
-/

namespace PklBindings

variable {σ α β : Type} {diskOf : σ → Disk}

/-- The run from a state is that of the other computation on the disk of the state. -/
def MirrorsAt (diskOf : σ → Disk) (x : StateM σ α) (y : StateM Disk α) (s : σ) : Prop :=
  Prod.map id diskOf (x.run s) = y.run (diskOf s)

/-- Every run is that of the other computation on the disk. -/
def Mirrors (diskOf : σ → Disk) (x : StateM σ α) (y : StateM Disk α) : Prop :=
  ∀ s, MirrorsAt diskOf x y s

theorem mirrorsAt_iff {x : StateM σ α} {y : StateM Disk α} {s s' : σ} {a : α}
    (h : x.run s = (a, s')) : MirrorsAt diskOf x y s ↔ y.run (diskOf s) = (a, diskOf s') := by
  rw [MirrorsAt, h]
  exact eq_comm

theorem MirrorsAt.bind {x : StateM σ α} {y : StateM Disk α} {f : α → StateM σ β}
    {g : α → StateM Disk β} {s : σ} (hx : MirrorsAt diskOf x y s)
    (hf : ∀ a s', x.run s = (a, s') → MirrorsAt diskOf (f a) (g a) s') :
    MirrorsAt diskOf (x >>= f) (y >>= g) s := by
  cases hrun : x.run s with
  | mk a s' =>
  rw [mirrorsAt_iff hrun] at hx
  rw [MirrorsAt, stateM_run_bind, stateM_run_bind, hrun, hx]
  exact hf a s' hrun

theorem MirrorsAt.bind_run {ε : Type} {x : ExceptT ε (StateM σ) α} {y : ExceptT ε (StateM Disk) α}
    {f : α → ExceptT ε (StateM σ) β} {g : α → ExceptT ε (StateM Disk) β} {s : σ}
    (hx : MirrorsAt diskOf x.run y.run s)
    (hf : ∀ a s', x.run.run s = (.ok a, s') → MirrorsAt diskOf (f a).run (g a).run s') :
    MirrorsAt diskOf (x >>= f).run (y >>= g).run s := by
  rw [ExceptT.run_bind, ExceptT.run_bind]
  refine hx.bind ?_
  intro result s' hrun
  cases result with
  | error e => rfl
  | ok a => exact hf a s' hrun

theorem MirrorsAt.run_lift {ε : Type} {x : StateM σ α} {y : StateM Disk α} {s : σ}
    (hx : MirrorsAt diskOf x y s) :
    MirrorsAt diskOf (liftM x : ExceptT ε (StateM σ) α).run
      (liftM y : ExceptT ε (StateM Disk) α).run s := by
  rw [MirrorsAt] at hx ⊢
  rw [run_liftM, run_liftM, ← hx]
  rfl

theorem Mirrors.relational (diskOf : σ → Disk) :
    Relational fun _ (x : StateM σ _) (y : StateM Disk _) => Mirrors diskOf x y where
  of_pure _ _ := rfl
  bind hx hf s := (hx s).bind fun a s' _ => hf a s'

namespace FileSystem

variable [FileSystem (StateM σ)]

/-- The actions are those of the disk, but that a file which is there may refuse to be written
to. -/
structure Serves (diskOf : σ → Disk) : Prop where
  currentDirectory : Mirrors diskOf currentDirectory currentDirectory
  status : ∀ path, Mirrors diskOf (status path) (status path)
  createDirectory : ∀ path, Mirrors diskOf (createDirectory path) (createDirectory path)
  remove : ∀ path, Mirrors diskOf (remove path) (remove path)
  writeText : ∀ path text s, (diskOf s).status path ≠ .file →
    MirrorsAt diskOf (writeText path text) (writeText path text) s
  setMode : ∀ path mode, Mirrors diskOf (setMode path mode) (setMode path mode)

namespace Serves

variable (h : Serves diskOf)

include h

/-- No refusal is met with, since a file is written to when nothing is in its way. -/
theorem writeFile (policy : WritePolicy) (path text : String) :
    Mirrors diskOf (writeFile policy path text : ExceptT WriteError (StateM σ) Unit).run
      (writeFile policy path text : ExceptT WriteError (StateM Disk) Unit).run := by
  have hR := Mirrors.relational diskOf
  rw [FileSystem.writeFile, FileSystem.writeFile]
  cases policy.dryRun with
  | true => exact hR.of_pure _
  | false =>
      refine hR.bind_run (hR.makeRoom h.status h.createDirectory path) ?_
      intro _ s
      have hclear := hR.clearWay policy (h.status path) (h.remove path) s
      refine hclear.bind_run ?_
      intro _ t hrun
      have hfree := Disk.status_ne_file_of_clearWay ((mirrorsAt_iff hrun).1 hclear)
      refine (h.writeText path text t hfree).run_lift.bind_run ?_
      intro written t' _
      cases written with
      | false => rfl
      | true => exact hR.run_require (h.setMode path _) t'

theorem writeFiles (policy : WritePolicy) (files : List (String × String)) :
    Mirrors diskOf
      (writeFiles policy files : StateM σ (List String × Except WriteError Unit))
      (writeFiles policy files) :=
  (Mirrors.relational diskOf).writeFiles h.currentDirectory fun file _ =>
    h.writeFile policy file.1 file.2

/-- An emission goes as on the disk by itself. -/
theorem emit (schema : Schema) (options : Options) (ds : Diagnostics) :
    Mirrors diskOf (schema.emit options ds : StateM σ Emission) (schema.emit options ds) := by
  have hR := Mirrors.relational diskOf
  rw [Schema.emit, Schema.emit]
  by_cases houtDir : options.outDir = ""
  · simp only [if_pos houtDir]
    exact hR.of_pure _
  · simp only [if_neg houtDir]
    rcases (schema.generate options).run.run ds with ⟨_ | documents, ds'⟩
    · exact hR.of_pure _
    · exact hR.bind (h.writeFiles _ _) fun _ => hR.of_pure _

end Serves

end FileSystem

end PklBindings
