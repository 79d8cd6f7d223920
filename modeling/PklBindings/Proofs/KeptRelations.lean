import Mathlib.Order.Defs.Unbundled
import PklBindings.Proofs.RelatedRuns

/-!
# Relations between the states of computations

A computation keeps a relation when the relation leads from every state before it to the state after
it. It respects a relation when, started in related states, it gives one result and leaves related
states. Either property passes from the steps of a computation to the whole (`Compositional`), as a
relation does that asks nothing of a second computation (`Compositional.relational`). For writing
files it is enough that the actions of the file system have it: those by which room is made, on any
path, and those on the paths of the files (`StepsHave.writeFiles`).
-/

namespace PklBindings

variable {σ α β ε : Type} {R : σ → σ → Prop}

/-- A property of computations that pure ones have, and that a computation has when all its steps
have it. -/
structure Compositional (P : ∀ α : Type, StateM σ α → Prop) : Prop where
  of_pure : ∀ {α : Type} (a : α), P α (pure a)
  bind : ∀ {α β : Type} {x : StateM σ α} {f : α → StateM σ β},
    P α x → (∀ a, P β (f a)) → P β (x >>= f)

namespace Compositional

variable {P : ∀ α : Type, StateM σ α → Prop} (hP : Compositional P)

include hP

/-- A property is a relation that asks nothing of the second computation. -/
theorem relational : Relational fun α (x : StateM σ α) (_ : StateM σ α) => P α x where
  of_pure := hP.of_pure
  bind := hP.bind

theorem bind_run {x : ExceptT ε (StateM σ) α} {f : α → ExceptT ε (StateM σ) β}
    (hx : P _ x.run) (hf : ∀ a, P _ (f a).run) : P _ (x >>= f).run :=
  hP.relational.bind_run (y := x) (g := f) hx hf

/-- A run over files has the property when the writing of each of them has it. -/
theorem writeFiles [FileSystem (StateM σ)] {policy : WritePolicy} {files : List (String × String)}
    (hplace : P _ (FileSystem.currentDirectory : StateM σ String))
    (hwrite : ∀ file ∈ files,
      P _ (FileSystem.writeFile policy file.1 file.2 : ExceptT WriteError (StateM σ) Unit).run) :
    P _ (FileSystem.writeFiles policy files : StateM σ (List String × Except WriteError Unit)) :=
  hP.relational.writeFiles hplace hwrite

end Compositional

/-! ## The steps of writing -/

namespace FileSystem

variable [FileSystem (StateM σ)] {P : ∀ α : Type, StateM σ α → Prop} {paths : String → Prop}

/-- The steps by which files are written have a property, if the paths of the files are among
`paths`. -/
structure StepsHave (P : ∀ α : Type, StateM σ α → Prop) (paths : String → Prop) : Prop where
  currentDirectory : P _ (currentDirectory : StateM σ String)
  status : ∀ path, P _ (status path : StateM σ PathStatus)
  createDirectory : ∀ path, P _ (createDirectory path : StateM σ Bool)
  remove : ∀ path, paths path → P _ (remove path : StateM σ Bool)
  writeText : ∀ path text, paths path → P _ (writeText path text : StateM σ Bool)
  setMode : ∀ path mode, paths path → P _ (setMode path mode : StateM σ Bool)

namespace StepsHave

variable (h : StepsHave P paths) (hP : Compositional P)

include h hP

theorem makeRoom (path : String) :
    P _ (makeRoom path : ExceptT WriteError (StateM σ) Unit).run :=
  hP.relational.makeRoom h.status h.createDirectory path

theorem clearWay (policy : WritePolicy) {path : String} (hpath : paths path) :
    P _ (clearWay policy path : ExceptT WriteError (StateM σ) Unit).run :=
  hP.relational.clearWay policy (h.status path) (h.remove path hpath)

theorem writeFile (policy : WritePolicy) {path : String} (hpath : paths path) (text : String) :
    P _ (writeFile policy path text : ExceptT WriteError (StateM σ) Unit).run :=
  hP.relational.writeFile (h.makeRoom hP path) (h.clearWay hP policy hpath)
    (h.writeText path text hpath) (h.setMode path _ hpath)

theorem writeFiles (policy : WritePolicy) {files : List (String × String)}
    (hfiles : ∀ file ∈ files, paths file.1) :
    P _ (writeFiles policy files : StateM σ (List String × Except WriteError Unit)) :=
  hP.writeFiles h.currentDirectory fun file hfile =>
    h.writeFile hP policy (hfiles file hfile) file.2

end StepsHave

end FileSystem

/-! ## Relations that are kept -/

/-- Whatever the state before the computation is, `R` leads from it to the state after. -/
def Keeps (R : σ → σ → Prop) (x : StateM σ α) : Prop :=
  ∀ s, R s (x.run s).2

theorem Keeps.compositional [IsPreorder σ R] :
    Compositional fun α (x : StateM σ α) => Keeps R x where
  of_pure _ s := refl_of R s
  bind {_ _ x _} hx hf s := trans_of R (hx s) (hf (x.run s).1 (x.run s).2)

/-! ## Relations that are respected -/

/-- Started in two states the computation gives one result, and leaves states that `R` relates. -/
def Agrees (R : σ → σ → Prop) (x : StateM σ α) (s s' : σ) : Prop :=
  (x.run s).1 = (x.run s').1 ∧ R (x.run s).2 (x.run s').2

theorem Agrees.exists_run {x : StateM σ α} {s s' : σ} (h : Agrees R x s s') :
    ∃ a t t', x.run s = (a, t) ∧ x.run s' = (a, t') ∧ R t t' :=
  ⟨(x.run s).1, (x.run s).2, (x.run s').2, rfl, Prod.ext h.1.symm rfl, h.2⟩

/-- The computation agrees in states that `R` relates. -/
def Respects (R : σ → σ → Prop) (x : StateM σ α) : Prop :=
  ∀ s s', R s s' → Agrees R x s s'

/-- A computation agrees when its first step does, and respects the relation from there on. -/
theorem Agrees.bind {x : StateM σ α} {f : α → StateM σ β} {s s' : σ} (hx : Agrees R x s s')
    (hf : ∀ a, Respects R (f a)) : Agrees R (x >>= f) s s' := by
  have hrest := hf (x.run s).1 _ _ hx.2
  rw [Agrees, show (x >>= f).run s' = (f (x.run s).1).run (x.run s').2 by rw [hx.1]; rfl]
  exact hrest

theorem Respects.compositional : Compositional fun α (x : StateM σ α) => Respects R x where
  of_pure _ _ _ h := ⟨rfl, h⟩
  bind hx hf s s' h := (hx s s' h).bind hf

end PklBindings
