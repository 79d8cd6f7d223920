import PklBindings.Disk.Writing

/-!
# Related runs

Two computations that take the same steps, each on states of its own. A relation between such
computations passes from the steps to the whole (`Relational`). For writing files these steps are
the writings of the files one by one (`Relational.writeFiles`); for one file they are looking at
paths and creating directories, by which room is made (`Relational.makeRoom`), and the actions on
the path of the file (`Relational.clearWay`, `Relational.writeFile`).
-/

namespace PklBindings

variable {σ τ α β ε : Type}

/-- A relation that holds between pure computations of one value, and between two computations when
it holds between all their steps. -/
structure Relational (R : ∀ α : Type, StateM σ α → StateM τ α → Prop) : Prop where
  of_pure : ∀ {α : Type} (a : α), R α (pure a) (pure a)
  bind : ∀ {α β : Type} {x : StateM σ α} {y : StateM τ α} {f : α → StateM σ β} {g : α → StateM τ β},
    R α x y → (∀ a, R β (f a) (g a)) → R β (x >>= f) (y >>= g)

namespace Relational

variable {R : ∀ α : Type, StateM σ α → StateM τ α → Prop} (hR : Relational R)

include hR

theorem bind_run {x : ExceptT ε (StateM σ) α} {y : ExceptT ε (StateM τ) α}
    {f : α → ExceptT ε (StateM σ) β} {g : α → ExceptT ε (StateM τ) β} (hx : R _ x.run y.run)
    (hf : ∀ a, R _ (f a).run (g a).run) : R _ (x >>= f).run (y >>= g).run := by
  rw [ExceptT.run_bind, ExceptT.run_bind]
  refine hR.bind hx ?_
  intro result
  cases result with
  | error e => exact hR.of_pure _
  | ok a => exact hf a

theorem run_lift {x : StateM σ α} {y : StateM τ α} (hx : R _ x y) :
    R _ (liftM x : ExceptT ε (StateM σ) α).run (liftM y : ExceptT ε (StateM τ) α).run := by
  rw [ExceptT.run_liftM, ExceptT.run_liftM]
  exact hR.bind hx fun a => hR.of_pure _

/-- Steps that have to answer with yes. -/
theorem run_require {x : StateM σ Bool} {y : StateM τ Bool} {e : ε} (hx : R _ x y) :
    R _ (do unless ← x do throw e : ExceptT ε (StateM σ) Unit).run
      (do unless ← y do throw e : ExceptT ε (StateM τ) Unit).run := by
  refine hR.bind_run (hR.run_lift hx) ?_
  intro answer
  cases answer <;> exact hR.of_pure _

variable [FileSystem (StateM σ)] [FileSystem (StateM τ)]

/-! ## One file -/

theorem createAll
    (hcreate : ∀ path, R _ (FileSystem.createDirectory path) (FileSystem.createDirectory path))
    (directories : List String) :
    R _ (FileSystem.createAll directories) (FileSystem.createAll directories) := by
  induction directories with
  | nil => exact hR.of_pure _
  | cons path directories ih =>
      refine hR.bind (hcreate path) ?_
      intro created
      cases created with
      | false => exact hR.of_pure _
      | true => exact ih

section Directories

variable (hstatus : ∀ path, R _ (FileSystem.status path) (FileSystem.status path))

include hstatus

theorem missingDirectories (path : String) (above : List String) :
    R _ (FileSystem.missingDirectories path above) (FileSystem.missingDirectories path above) := by
  induction above generalizing path with
  | nil => exact hR.of_pure _
  | cons up above ih =>
      refine hR.bind (hstatus up) ?_
      intro found
      cases found with
      | nothing => exact hR.bind (ih up) fun missing => hR.of_pure _
      | file => exact hR.of_pure _
      | directory => exact hR.of_pure _
      | unknown => exact hR.of_pure _

variable (hcreate : ∀ path, R _ (FileSystem.createDirectory path) (FileSystem.createDirectory path))

include hcreate

theorem createDirectories (path : String) :
    R _ (FileSystem.createDirectories path) (FileSystem.createDirectories path) := by
  refine hR.bind (hstatus path) ?_
  intro found
  cases found with
  | nothing =>
      refine hR.bind (hR.missingDirectories hstatus path _) ?_
      intro missing
      cases missing with
      | none => exact hR.of_pure _
      | some missing =>
          by_cases hlength : missing.length ≤ FileSystem.maxMissing
          · simp only [if_pos hlength]
            exact hR.createAll hcreate missing
          · simp only [if_neg hlength]
            exact hR.of_pure _
  | file => exact hR.of_pure _
  | directory => exact hR.of_pure _
  | unknown => exact hR.of_pure _

/-- To make room for a file takes looking at paths and creating directories. -/
theorem makeRoom (path : String) :
    R _ (FileSystem.makeRoom path : ExceptT WriteError (StateM σ) Unit).run
      (FileSystem.makeRoom path : ExceptT WriteError (StateM τ) Unit).run := by
  by_cases hparent : DiskPath.parent path = ""
  · simp only [FileSystem.makeRoom, if_pos hparent]
    exact hR.of_pure _
  · simp only [FileSystem.makeRoom, if_neg hparent]
    exact hR.run_require (hR.createDirectories hstatus hcreate _)

end Directories

variable {policy : WritePolicy} {path text : String}

theorem clearWay (policy : WritePolicy)
    (hstatus : R _ (FileSystem.status path) (FileSystem.status path))
    (hremove : R _ (FileSystem.remove path) (FileSystem.remove path)) :
    R _ (FileSystem.clearWay policy path : ExceptT WriteError (StateM σ) Unit).run
      (FileSystem.clearWay policy path : ExceptT WriteError (StateM τ) Unit).run := by
  refine hR.bind_run (hR.run_lift hstatus) ?_
  intro found
  -- A file and a directory in the way are dealt with alike.
  have hreplace : R _
      (do
        if policy.noOverwrite then throw (.inTheWay path)
        unless ← (FileSystem.remove path : StateM σ Bool) do throw (.notRemoved path) :
        ExceptT WriteError (StateM σ) Unit).run
      (do
        if policy.noOverwrite then throw (.inTheWay path)
        unless ← (FileSystem.remove path : StateM τ Bool) do throw (.notRemoved path) :
        ExceptT WriteError (StateM τ) Unit).run := by
    cases policy.noOverwrite with
    | true => exact hR.of_pure _
    | false => exact hR.run_require hremove
  cases found with
  | nothing => exact hR.of_pure _
  | unknown => exact hR.of_pure _
  | file => exact hreplace
  | directory => exact hreplace

/-- A file is written by making room for it, clearing its way, and two actions on its path. -/
theorem writeFile
    (hroom : R _ (FileSystem.makeRoom path : ExceptT WriteError (StateM σ) Unit).run
      (FileSystem.makeRoom path : ExceptT WriteError (StateM τ) Unit).run)
    (hclear : R _ (FileSystem.clearWay policy path : ExceptT WriteError (StateM σ) Unit).run
      (FileSystem.clearWay policy path : ExceptT WriteError (StateM τ) Unit).run)
    (hwrite : R _ (FileSystem.writeText path text) (FileSystem.writeText path text))
    (hmode : R _ (FileSystem.setMode path policy.accessRights)
      (FileSystem.setMode path policy.accessRights)) :
    R _ (FileSystem.writeFile policy path text : ExceptT WriteError (StateM σ) Unit).run
      (FileSystem.writeFile policy path text : ExceptT WriteError (StateM τ) Unit).run := by
  rw [FileSystem.writeFile, FileSystem.writeFile]
  cases policy.dryRun with
  | true => exact hR.of_pure _
  | false =>
      refine hR.bind_run hroom ?_
      intro _
      refine hR.bind_run hclear ?_
      intro _
      refine hR.bind_run (hR.run_lift hwrite) ?_
      intro written
      cases written with
      | false => exact hR.of_pure _
      | true => exact hR.run_require hmode

/-! ## Files one after another -/

/-- Runs over files are related when the writings of each of them are. -/
theorem writeFiles {files : List (String × String)}
    (hplace : R _ (FileSystem.currentDirectory : StateM σ String) FileSystem.currentDirectory)
    (hwrite : ∀ file ∈ files,
      R _ (FileSystem.writeFile policy file.1 file.2 : ExceptT WriteError (StateM σ) Unit).run
        (FileSystem.writeFile policy file.1 file.2 : ExceptT WriteError (StateM τ) Unit).run) :
    R _ (FileSystem.writeFiles policy files : StateM σ (List String × Except WriteError Unit))
      (FileSystem.writeFiles policy files) := by
  induction files with
  | nil => exact hR.of_pure _
  | cons file files ih =>
      rw [List.forall_mem_cons] at hwrite
      refine hR.bind (hR.bind hplace fun _ => hR.of_pure _) ?_
      intro place
      refine hR.bind hwrite.1 ?_
      intro result
      cases result with
      | error e => exact hR.of_pure _
      | ok _ => exact hR.bind (ih hwrite.2) fun rest => hR.of_pure _

end Relational

end PklBindings
