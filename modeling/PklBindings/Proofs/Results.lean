import Mathlib.Data.List.Forall2

/-!
# Results that may be errors

When a computation that may end in an error gives a value: of two steps, both gave one, and of
steps over a list, each did (`bind_eq_ok_iff`, `mapM_eq_ok_iff`). When it ends in an error, one of
its steps did (`bind_eq_error_iff`, `exists_mem_of_mapM_eq_error`). A computation that also changes
a state leaves the state as it was when the error occurred (`run_bind`).
-/

namespace PklBindings

variable {ε ε' α β : Type}

theorem bind_eq_ok_iff {x : Except ε α} {f : α → Except ε β} {b : β} :
    x >>= f = .ok b ↔ ∃ a, x = .ok a ∧ f a = .ok b := by
  cases x with
  | error e => simp [bind, Except.bind]
  | ok a => simp [bind, Except.bind]

theorem mapError_eq_ok_iff {f : ε → ε'} {x : Except ε α} {a : α} :
    x.mapError f = .ok a ↔ x = .ok a := by
  cases x <;> simp [Except.mapError]

theorem mapM_eq_ok_iff {f : α → Except ε β} {as : List α} {bs : List β} :
    as.mapM f = .ok bs ↔ List.Forall₂ (fun a b => f a = .ok b) as bs := by
  induction as generalizing bs with
  | nil => cases bs <;> simp [pure, Except.pure]
  | cons a as ih =>
      rw [List.mapM_cons, bind_eq_ok_iff]
      constructor
      · rintro ⟨b, hb, hrest⟩
        obtain ⟨bs', hbs', heq⟩ := bind_eq_ok_iff.1 hrest
        simp only [pure, Except.pure, Except.ok.injEq] at heq
        subst heq
        exact .cons hb (ih.1 hbs')
      · rintro (_ | ⟨hb, hrest⟩)
        exact ⟨_, hb, bind_eq_ok_iff.2 ⟨_, ih.2 hrest, rfl⟩⟩

theorem forM_eq_ok_iff {f : α → Except ε Unit} {as : List α} {u : Unit} :
    as.forM f = .ok u ↔ ∀ a ∈ as, f a = .ok () := by
  induction as with
  | nil => simp [pure, Except.pure]
  | cons a as ih =>
      rw [List.forM_eq_forM, List.forM_cons, bind_eq_ok_iff, ← List.forM_eq_forM, ih,
        List.forall_mem_cons]
      constructor
      · rintro ⟨⟨⟩, ha, has⟩
        exact ⟨ha, has⟩
      · rintro ⟨ha, has⟩
        exact ⟨(), ha, has⟩

theorem mapM_congr {f g : α → Except ε β} {as : List α} (h : ∀ a ∈ as, f a = g a) :
    as.mapM f = as.mapM g := by
  induction as with
  | nil => rfl
  | cons a as ih =>
      rw [List.forall_mem_cons] at h
      rw [List.mapM_cons, List.mapM_cons, h.1, ih h.2]

theorem forM_congr {f g : α → Except ε Unit} {as : List α} (h : ∀ a ∈ as, f a = g a) :
    as.forM f = as.forM g := by
  induction as with
  | nil => rfl
  | cons a as ih =>
      rw [List.forall_mem_cons] at h
      rw [List.forM_eq_forM, List.forM_cons, h.1, ← List.forM_eq_forM, ih h.2]
      rfl

/-! ## Errors -/

theorem bind_eq_error_iff {x : Except ε α} {f : α → Except ε β} {e : ε} :
    x >>= f = .error e ↔ x = .error e ∨ ∃ a, x = .ok a ∧ f a = .error e := by
  cases x with
  | error e' => simp [bind, Except.bind]
  | ok a => simp [bind, Except.bind]

theorem mapError_eq_error_iff {f : ε → ε'} {x : Except ε α} {e' : ε'} :
    x.mapError f = .error e' ↔ ∃ e, x = .error e ∧ f e = e' := by
  cases x <;> simp [Except.mapError]

theorem exists_mem_of_mapM_eq_error {f : α → Except ε β} {as : List α} {e : ε}
    (h : as.mapM f = .error e) : ∃ a ∈ as, f a = .error e := by
  induction as with
  | nil => cases h
  | cons a as ih =>
      rw [List.mapM_cons] at h
      rcases bind_eq_error_iff.1 h with ha | ⟨b, -, hrest⟩
      · exact ⟨a, by simp, ha⟩
      · rcases bind_eq_error_iff.1 hrest with has | ⟨bs, -, hpure⟩
        · obtain ⟨a', ha', h'⟩ := ih has
          exact ⟨a', List.mem_cons_of_mem _ ha', h'⟩
        · cases hpure

theorem exists_mem_of_forM_eq_error {f : α → Except ε Unit} {as : List α} {e : ε}
    (h : as.forM f = .error e) : ∃ a ∈ as, f a = .error e := by
  induction as with
  | nil => cases h
  | cons a as ih =>
      rw [List.forM_eq_forM, List.forM_cons, ← List.forM_eq_forM] at h
      rcases bind_eq_error_iff.1 h with ha | ⟨-, -, has⟩
      · exact ⟨a, by simp, ha⟩
      · obtain ⟨a', ha', h'⟩ := ih has
        exact ⟨a', List.mem_cons_of_mem _ ha', h'⟩

/-- The error that a computation ends in, if it does. -/
def errorOf? : Except ε α → Option ε
  | .error e => some e
  | .ok _ => none

theorem errorOf?_eq_some_iff {x : Except ε α} {e : ε} : errorOf? x = some e ↔ x = .error e := by
  cases x <;> simp [errorOf?]

/-- A value that is made into another one ends in the same error. -/
theorem errorOf?_bind_pure (x : Except ε α) (g : α → β) :
    errorOf? (do let a ← x; return g a) = errorOf? x := by
  cases x <;> rfl

theorem errorOf?_eq_none_iff {x : Except ε α} : errorOf? x = none ↔ ∃ a, x = .ok a := by
  cases x <;> simp [errorOf?]

/-- Of two steps, the error is that of the first, and if there is none, that of the second. -/
theorem errorOf?_bind {x : Except ε α} {f : α → Except ε β} {second : Option ε}
    (h : ∀ a, x = .ok a → errorOf? (f a) = second) :
    errorOf? (x >>= f) = (errorOf? x).or second := by
  cases x with
  | error e => rfl
  | ok a => exact h a rfl

theorem errorOf?_bind_bind_pure {γ : Type} (x : Except ε α) (y : Except ε β) (g : α → β → γ) :
    errorOf? (do let a ← x; let b ← y; return g a b) = (errorOf? x).or (errorOf? y) :=
  errorOf?_bind fun a _ => errorOf?_bind_pure y (g a)

theorem errorOf?_mapError (f : ε → ε') (x : Except ε α) :
    errorOf? (x.mapError f) = (errorOf? x).map f := by
  cases x <;> rfl

/-! ## Lists related element by element -/

theorem exists_mem_zip_of_mem_left {R : α → β → Prop} {as : List α} {bs : List β}
    (h : List.Forall₂ R as bs) {a : α} (ha : a ∈ as) : ∃ b, (a, b) ∈ as.zip bs ∧ R a b := by
  induction h with
  | nil => simp at ha
  | @cons a' b' as bs hab _ ih =>
      rcases List.mem_cons.1 ha with rfl | ha
      · exact ⟨b', by simp, hab⟩
      · obtain ⟨b, hmem, hb⟩ := ih ha
        exact ⟨b, by simp [hmem], hb⟩

theorem exists_mem_zip_of_mem_right {R : α → β → Prop} {as : List α} {bs : List β}
    (h : List.Forall₂ R as bs) {b : β} (hb : b ∈ bs) : ∃ a, (a, b) ∈ as.zip bs ∧ R a b := by
  induction h with
  | nil => simp at hb
  | @cons a' b' as bs hab _ ih =>
      rcases List.mem_cons.1 hb with rfl | hb
      · exact ⟨a', by simp, hab⟩
      · obtain ⟨a, hmem, ha⟩ := ih hb
        exact ⟨a, by simp [hmem], ha⟩

/-! ## Computations that change a state -/

variable {σ : Type}

theorem run_bind (x : ExceptT ε (StateM σ) α) (f : α → ExceptT ε (StateM σ) β) (s : σ) :
    (x >>= f).run.run s =
      match x.run.run s with
      | (.error e, s') => (.error e, s')
      | (.ok a, s') => (f a).run.run s' := by
  show ExceptT.bindCont f (x.run.run s).1 (x.run.run s).2 = _
  rcases x.run.run s with ⟨result, s'⟩
  cases result <;> rfl

@[simp] theorem run_liftExcept (x : Except ε α) (s : σ) :
    (liftExcept x : ExceptT ε (StateM σ) α).run.run s = (x, s) := by
  cases x <;> rfl

@[simp] theorem run_pure (a : α) (s : σ) :
    (pure a : ExceptT ε (StateM σ) α).run.run s = (.ok a, s) :=
  rfl

theorem stateM_run_bind (x : StateM σ α) (f : α → StateM σ β) (s : σ) :
    (x >>= f).run s = (f (x.run s).1).run (x.run s).2 :=
  rfl

/-- Of two steps, the second starts from the state that the first one left. -/
theorem run_bind_eq_ok_iff {x : ExceptT ε (StateM σ) α} {f : α → ExceptT ε (StateM σ) β}
    {b : β} {s s' : σ} :
    (x >>= f).run.run s = (.ok b, s') ↔
      ∃ a t, x.run.run s = (.ok a, t) ∧ (f a).run.run t = (.ok b, s') := by
  rw [run_bind]
  rcases x.run.run s with ⟨result, t⟩
  cases result with
  | error e =>
      constructor
      · intro h
        cases h
      · rintro ⟨_, _, h, -⟩
        cases h
  | ok a =>
      constructor
      · intro h
        exact ⟨a, t, rfl, h⟩
      · rintro ⟨_, _, h, hrest⟩
        cases h
        exact hrest

/-- Of two steps, the first one failed, or the second one did in the state that the first left. -/
theorem run_bind_eq_error_iff {x : ExceptT ε (StateM σ) α} {f : α → ExceptT ε (StateM σ) β}
    {e : ε} {s s' : σ} :
    (x >>= f).run.run s = (.error e, s') ↔
      x.run.run s = (.error e, s') ∨
        ∃ a t, x.run.run s = (.ok a, t) ∧ (f a).run.run t = (.error e, s') := by
  rw [run_bind]
  rcases x.run.run s with ⟨result, t⟩
  cases result with
  | error e' =>
      constructor
      · intro h
        cases h
        exact .inl rfl
      · rintro (h | ⟨_, _, h, -⟩)
        · cases h
          rfl
        · cases h
  | ok a =>
      constructor
      · intro h
        exact .inr ⟨a, t, rfl, h⟩
      · rintro (h | ⟨_, _, h, hrest⟩)
        · cases h
        · cases h
          exact hrest

theorem run_liftExcept_eq_ok_iff {x : Except ε α} {a : α} {s s' : σ} :
    (liftExcept x : ExceptT ε (StateM σ) α).run.run s = (.ok a, s') ↔ x = .ok a ∧ s = s' := by
  rw [run_liftExcept, Prod.mk.injEq]

theorem run_liftExcept_eq_error_iff {x : Except ε α} {e : ε} {s s' : σ} :
    (liftExcept x : ExceptT ε (StateM σ) α).run.run s = (.error e, s') ↔ x = .error e ∧ s = s' := by
  rw [run_liftExcept, Prod.mk.injEq]

/-- A step that cannot fail by itself. -/
theorem run_liftM (x : StateM σ α) (s : σ) :
    (liftM x : ExceptT ε (StateM σ) α).run.run s = (.ok (x.run s).1, (x.run s).2) :=
  rfl

theorem run_liftM_eq_ok_iff {x : StateM σ α} {a : α} {s s' : σ} :
    (liftM x : ExceptT ε (StateM σ) α).run.run s = (.ok a, s') ↔ x.run s = (a, s') := by
  rw [run_liftM, Prod.mk.injEq, Except.ok.injEq, Prod.ext_iff]

/-- With either answer the state is the one that the step leaves. -/
theorem run_require_snd (x : StateM σ Bool) (e : ε) (s : σ) :
    ((do unless ← x do throw e : ExceptT ε (StateM σ) Unit).run.run s).2 = (x.run s).2 := by
  rw [run_bind, run_liftM]
  cases (x.run s).1 <;> rfl

/-- A step that has to answer with yes. -/
theorem run_require_eq_ok_iff {x : StateM σ Bool} {e : ε} {s s' : σ} :
    (do unless ← x do throw e : ExceptT ε (StateM σ) Unit).run.run s = (.ok (), s') ↔
      x.run s = (true, s') := by
  rw [run_bind_eq_ok_iff]
  constructor
  · rintro ⟨answer, t, hx, hrest⟩
    rw [run_liftM_eq_ok_iff] at hx
    cases answer with
    | false => cases hrest
    | true =>
        cases hrest
        exact hx
  · intro hx
    exact ⟨true, s', run_liftM_eq_ok_iff.2 hx, rfl⟩

end PklBindings
