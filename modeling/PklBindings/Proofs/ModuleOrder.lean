import Mathlib.Data.List.FinRange
import PklBindings.Proofs.Generation

/-!
# The order of modules

The modules of a schema may stand in any order: what is asked of them all, that each has a document
of its own and that no two documents share a namespace or a file, does not depend on it
(`Schema.exists_run_generate_ofFn_iff`). So a schema and the same schema in another order are both
generated or both refused, and the documents follow their modules (`Schema.generate_permuted`).
-/

namespace PklBindings.Schema

/-- The schema with its modules in another order: at each position stands the module that was at the
position which `σ` gives. -/
def permuted (schema : Schema) (σ : Equiv.Perm (Fin schema.modules.length)) : Schema :=
  { schema with modules := List.ofFn fun i => schema.modules.get (σ i) }

variable {n : Nat} {ms : Fin n → Module} {bindings : BindingTable} {options : Options}
  {ds : Diagnostics}

theorem forall₂_ofFn_iff {α β : Type} {R : α → β → Prop} {f : Fin n → α} {g : Fin n → β} :
    List.Forall₂ R (List.ofFn f) (List.ofFn g) ↔ ∀ i, R (f i) (g i) := by
  rw [List.forall₂_iff_get]
  simp only [List.length_ofFn, List.get_eq_getElem, List.getElem_ofFn, true_and]
  exact ⟨fun h i => h i i.2 i.2, fun h i hi _ => h ⟨i, hi⟩⟩

/-- What is asked of modules so that they have these documents, whatever their order. -/
theorem exists_run_generate_ofFn_iff {documents : Fin n → Document} :
    (∃ remarks, ((Schema.mk (List.ofFn ms) bindings).generate options).run.run ds =
        (.ok (List.ofFn documents), remarks)) ↔
      options.fileSuffix ≠ "" ∧ (∀ i, (ms i).ownDocument bindings options = .ok (documents i)) ∧
        Function.Injective (fun i => (documents i).space) ∧
        Function.Injective fun i => (documents i).fileName := by
  simp only [run_generate_eq_ok_iff_ownDocument, forall₂_ofFn_iff, List.map_ofFn, List.nodup_ofFn,
    exists_and_left, exists_eq, and_true]
  rfl

/-- As many documents as modules. -/
theorem exists_ofFn_of_generate {documents : List Document} {remarks : Diagnostics}
    (h : ((Schema.mk (List.ofFn ms) bindings).generate options).run.run ds =
      (.ok documents, remarks)) :
    ∃ byPosition : Fin n → Document, documents = List.ofFn byPosition := by
  obtain ⟨-, hdocuments, -⟩ := run_generate_eq_ok_iff_ownDocument.1 h
  have hlength : documents.length = n := by simpa using hdocuments.length_eq.symm
  subst hlength
  exact ⟨documents.get, (List.ofFn_get documents).symm⟩

/-- Documents are made in one order of the modules exactly when they are made in another one, and
then they have changed their places with the modules. -/
theorem exists_run_generate_comp_iff {documents : Fin n → Document} (σ : Equiv.Perm (Fin n))
    (ds ds' : Diagnostics) :
    (∃ remarks, ((Schema.mk (List.ofFn (ms ∘ σ)) bindings).generate options).run.run ds' =
        (.ok (List.ofFn (documents ∘ σ)), remarks)) ↔
      ∃ remarks, ((Schema.mk (List.ofFn ms) bindings).generate options).run.run ds =
        (.ok (List.ofFn documents), remarks) := by
  rw [exists_run_generate_ofFn_iff, exists_run_generate_ofFn_iff]
  have hown : (∀ i, ((ms ∘ σ) i).ownDocument bindings options = .ok ((documents ∘ σ) i)) ↔
      ∀ i, (ms i).ownDocument bindings options = .ok (documents i) :=
    σ.forall_congr_right (q := fun i => (ms i).ownDocument bindings options = .ok (documents i))
  have hinjective {κ : Type} (key : Document → κ) :
      Function.Injective (fun i => key ((documents ∘ σ) i)) ↔
        Function.Injective fun i => key (documents i) :=
    Function.Injective.of_comp_iff' (fun i => key (documents i)) σ.bijective
  rw [hown, hinjective, hinjective]

/-- A schema is generated in one order of its modules exactly when it is generated in another one.
Then there is a document for each module, with one namespace, file and text in both orders, and the
documents stand in the order of their modules. -/
theorem generate_permuted (schema : Schema) (options : Options)
    (σ : Equiv.Perm (Fin schema.modules.length)) (ds ds' : Diagnostics) :
    (∃ documents : Fin schema.modules.length → Document, ∃ remarks remarks',
        (schema.generate options).run.run ds = (.ok (List.ofFn documents), remarks) ∧
        ((schema.permuted σ).generate options).run.run ds' =
          (.ok (List.ofFn (documents ∘ σ)), remarks')) ∨
      ∃ e e' remarks remarks', (schema.generate options).run.run ds = (.error e, remarks) ∧
        ((schema.permuted σ).generate options).run.run ds' = (.error e', remarks') := by
  obtain ⟨modules, bindings⟩ := schema
  have hofFn : Schema.mk modules bindings = ⟨List.ofFn modules.get, bindings⟩ := by
    rw [List.ofFn_get]
  have hpermuted : (Schema.mk modules bindings).permuted σ =
      ⟨List.ofFn (modules.get ∘ σ), bindings⟩ := rfl
  rw [hpermuted]
  cases hrun : ((Schema.mk modules bindings).generate options).run.run ds with
  | mk result remarks =>
  cases hrun' : ((Schema.mk (List.ofFn (modules.get ∘ σ)) bindings).generate options).run.run ds'
    with
  | mk result' remarks' =>
  cases result with
  | ok documents =>
      rw [hofFn] at hrun
      obtain ⟨byPosition, rfl⟩ := exists_ofFn_of_generate hrun
      obtain ⟨others, hothers⟩ := (exists_run_generate_comp_iff σ ds ds').2 ⟨remarks, hrun⟩
      exact .inl ⟨byPosition, remarks, others, rfl, hrun'.symm.trans hothers⟩
  | error e =>
      cases result' with
      | error e' => exact .inr ⟨e, e', remarks, remarks', rfl, rfl⟩
      | ok documents =>
          -- Put back in the first order, the documents would be those of the schema.
          obtain ⟨byPosition, rfl⟩ := exists_ofFn_of_generate hrun'
          have hback : byPosition = (byPosition ∘ σ.symm) ∘ σ := by
            rw [Function.comp_assoc, σ.symm_comp_self, Function.comp_id]
          rw [hback] at hrun'
          obtain ⟨others, hothers⟩ :=
            (exists_run_generate_comp_iff σ ds ds').1 ⟨remarks', hrun'⟩
          rw [← hofFn, hrun] at hothers
          cases hothers

end PklBindings.Schema
