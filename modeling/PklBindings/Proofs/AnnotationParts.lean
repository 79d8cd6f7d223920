import PklBindings.Annotation
import PklBindings.Proofs.Results

/-!
# The parts of an annotation

An annotation is fixed text with references in it. The parts of a type expression (`PklType.parts`)
depend on the expression alone; the annotation in a namespace is these parts one after another, each
reference spelt as the namespace spells its binding, and all references are bound
(`annotate_eq_ok`). The references among the parts are those of the expression, in order
(`refs_parts`).
-/

namespace PklBindings

/-- A part of an annotation. -/
inductive AnnotationPart where
  | text (s : String)
  /-- A reference to a declaration by its qualified name. -/
  | reference (ref : String)
  deriving DecidableEq, Repr

namespace AnnotationPart

/-- A part as it is spelt in a namespace; a reference without a binding leaves nothing. -/
def spelling (target : Target) : AnnotationPart → String
  | text s => s
  | reference ref => ((target.bindings.find? ref).map target.spelling).getD ""

/-- Parts as they are spelt one after another. -/
def spellAll (target : Target) (parts : List AnnotationPart) : String :=
  String.join (parts.map (spelling target))

@[simp] theorem spellAll_nil (target : Target) : spellAll target [] = "" := by
  simp [spellAll]

@[simp] theorem spellAll_cons (target : Target) (part : AnnotationPart)
    (parts : List AnnotationPart) :
    spellAll target (part :: parts) = part.spelling target ++ spellAll target parts := by
  simp [spellAll]

@[simp] theorem spellAll_append (target : Target) (parts parts' : List AnnotationPart) :
    spellAll target (parts ++ parts') = spellAll target parts ++ spellAll target parts' := by
  simp [spellAll]

@[simp] theorem spelling_text (target : Target) (s : String) : (text s).spelling target = s :=
  rfl

/-- The declarations that parts refer to. -/
def refs : List AnnotationPart → List String
  | [] => []
  | text _ :: parts => refs parts
  | reference ref :: parts => ref :: refs parts

@[simp] theorem refs_append (parts parts' : List AnnotationPart) :
    refs (parts ++ parts') = refs parts ++ refs parts' := by
  induction parts with
  | nil => rfl
  | cons part parts ih => cases part <;> simp [refs, ih]

theorem mem_refs {parts : List AnnotationPart} {ref : String} :
    ref ∈ refs parts ↔ reference ref ∈ parts := by
  induction parts with
  | nil => simp [refs]
  | cons part parts ih => cases part <;> simp [refs, ih]

/-- Parts of several expressions, with commas between the expressions. -/
def commaSeparated (parts : List (List AnnotationPart)) : List AnnotationPart :=
  [text ", "].intercalate parts

theorem spellAll_commaSeparated (target : Target) (parts : List (List AnnotationPart)) :
    spellAll target (commaSeparated parts) = ", ".intercalate (parts.map (spellAll target)) := by
  unfold commaSeparated
  induction parts with
  | nil => simp
  | cons p ps ih =>
      cases ps with
      | nil => simp
      | cons q qs =>
          rw [List.intercalate_cons_cons, spellAll_append, spellAll_append, ih]
          simp

theorem refs_commaSeparated (parts : List (List AnnotationPart)) :
    refs (commaSeparated parts) = parts.flatMap refs := by
  unfold commaSeparated
  induction parts with
  | nil => rfl
  | cons p ps ih =>
      cases ps with
      | nil => simp
      | cons q qs =>
          rw [List.intercalate_cons_cons, refs_append, refs_append, ih]
          simp [refs]

end AnnotationPart

namespace PklType

open AnnotationPart

mutual

/-- The parts of the annotation of an expression. -/
def parts : PklType → List AnnotationPart
  | missing | unsupported .. => []
  | primitive _ type => [.text type.annotation]
  | nullable _ inner => .text "Optional[" :: parts inner ++ [.text "]"]
  | union _ members => .text "Union[" :: commaSeparated (partsAll members) ++ [.text "]"]
  | declared _ ref => [.reference ref]
  | literal _ value => [.text ("Literal[" ++ Quoted.encode value ++ "]")]
  | generic _ base [] => parts base
  | generic _ base (e :: es) =>
      parts base ++ .text "[" :: commaSeparated (parts e :: partsAll es) ++ [.text "]"]
  | function _ parameters result =>
      .text "Callable[[" :: commaSeparated (partsAll parameters) ++ .text "], " :: parts result ++
        [.text "]"]

/-- The parts of the expressions of a list. -/
def partsAll : List PklType → List (List AnnotationPart)
  | [] => []
  | e :: es => parts e :: partsAll es

end

mutual

/-- The references among the parts are those of the expression. -/
theorem refs_parts : ∀ e : PklType, refs e.parts = e.references
  | missing | unsupported _ _ | primitive _ _ | literal _ _ | declared _ _ => by
      simp [parts, references, refs]
  | nullable _ inner => by
      simp [parts, references, refs, refs_parts inner]
  | union _ members => by
      simp [parts, references, refs, refs_commaSeparated, refs_partsAll members]
  | generic _ base [] => by
      simp [parts, references, referencesAll, refs_parts base]
  | generic _ base (e :: es) => by
      simp [parts, references, referencesAll, refs, refs_commaSeparated, refs_parts base,
        refs_parts e, refs_partsAll es]
  | function _ parameters result => by
      simp [parts, references, refs, refs_commaSeparated, refs_partsAll parameters,
        refs_parts result]

theorem refs_partsAll : ∀ es : List PklType, (partsAll es).flatMap refs = referencesAll es
  | [] => by simp [partsAll, referencesAll]
  | e :: es => by simp [partsAll, referencesAll, refs_parts e, refs_partsAll es]

end

-- The cases are those of `annotate`, which stops at the first part without an annotation.
mutual

/-- An annotation is its parts, spelt one after another, and all that it refers to is bound. -/
theorem annotate_eq_ok {target : Target} : ∀ {owner e : PklType} {s : String},
    annotate target owner e = .ok s →
      s = spellAll target e.parts ∧
        ∀ ref ∈ e.references, (target.bindings.find? ref).isSome = true
  | _, missing, _, h => by simp [annotate] at h
  | _, unsupported _ _, _, h => by simp [annotate] at h
  | _, primitive _ type, _, h => by
      simp only [annotate, Except.ok.injEq] at h
      simp [parts, references, ← h]
  | _, literal _ value, _, h => by
      simp only [annotate, Except.ok.injEq] at h
      simp [parts, references, ← h]
  | _, declared _ ref, _, h => by
      rw [annotate] at h
      split at h
      · simp at h
      · -- A bound reference is spelt by its binding.
        rename_i b hb
        simp only [Except.ok.injEq] at h
        simp [parts, references, spelling, hb, ← h]
  | _, nullable _ inner, _, h => by
      rw [annotate] at h
      obtain ⟨s, hs, h⟩ := bind_eq_ok_iff.1 h
      cases h
      obtain ⟨rfl, hbound⟩ := annotate_eq_ok hs
      simp only [parts, references]
      exact ⟨by simp [String.append_assoc], hbound⟩
  | _, union _ [], _, h => by simp [annotate] at h
  | _, union _ (e :: es), _, h => by
      rw [annotate] at h
      obtain ⟨first, hfirst, h⟩ := bind_eq_ok_iff.1 h
      obtain ⟨others, hothers, h⟩ := bind_eq_ok_iff.1 h
      cases h
      obtain ⟨rfl, hbound⟩ := annotate_eq_ok hfirst
      obtain ⟨rfl, hboundAll⟩ := annotateAll_eq_ok hothers
      simp only [parts, references, referencesAll, partsAll, List.mem_append]
      refine ⟨?_, fun ref href => href.elim (hbound ref) (hboundAll ref)⟩
      simp [spellAll_commaSeparated, String.append_assoc]
  | _, generic _ base [], _, h => by
      rw [annotate] at h
      obtain ⟨s, hs, h⟩ := bind_eq_ok_iff.1 h
      cases h
      obtain ⟨rfl, hbound⟩ := annotate_eq_ok hs
      -- Without arguments there are no brackets: the annotation is that of the base.
      simp only [parts, references, referencesAll, List.append_nil]
      exact ⟨by simp, hbound⟩
  | _, generic _ base (e :: es), _, h => by
      rw [annotate] at h
      obtain ⟨s, hs, h⟩ := bind_eq_ok_iff.1 h
      obtain ⟨arguments, harguments, h⟩ := bind_eq_ok_iff.1 h
      cases h
      obtain ⟨rfl, hbound⟩ := annotate_eq_ok hs
      obtain ⟨rfl, hboundAll⟩ := annotateAll_eq_ok harguments
      simp only [references, List.mem_append]
      refine ⟨?_, fun ref href => href.elim (hbound ref) (hboundAll ref)⟩
      simp [parts, partsAll, spellAll_commaSeparated, String.append_assoc]
  | _, function _ parameters result, _, h => by
      rw [annotate] at h
      obtain ⟨arguments, harguments, h⟩ := bind_eq_ok_iff.1 h
      obtain ⟨s, hs, h⟩ := bind_eq_ok_iff.1 h
      cases h
      obtain ⟨rfl, hboundAll⟩ := annotateAll_eq_ok harguments
      obtain ⟨rfl, hbound⟩ := annotate_eq_ok hs
      simp only [references, List.mem_append]
      refine ⟨?_, fun ref href => href.elim (hboundAll ref) (hbound ref)⟩
      simp [parts, spellAll_commaSeparated, String.append_assoc]

theorem annotateAll_eq_ok {target : Target} : ∀ {owner : PklType} {es : List PklType}
    {ss : List String}, annotateAll target owner es = .ok ss →
      ss = (partsAll es).map (spellAll target) ∧
        ∀ ref ∈ referencesAll es, (target.bindings.find? ref).isSome = true
  | _, [], _, h => by
      simp only [annotateAll, Except.ok.injEq] at h
      simp [partsAll, referencesAll, ← h]
  | _, e :: es, _, h => by
      rw [annotateAll] at h
      obtain ⟨first, hfirst, h⟩ := bind_eq_ok_iff.1 h
      obtain ⟨others, hothers, h⟩ := bind_eq_ok_iff.1 h
      cases h
      obtain ⟨rfl, hbound⟩ := annotate_eq_ok hfirst
      obtain ⟨rfl, hboundAll⟩ := annotateAll_eq_ok hothers
      simp only [referencesAll, partsAll, List.mem_append, List.map_cons, true_and]
      exact fun ref href => href.elim (hbound ref) (hboundAll ref)

end

end PklType

end PklBindings
