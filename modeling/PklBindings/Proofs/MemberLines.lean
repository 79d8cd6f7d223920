import PklBindings.Proofs.DocumentLines
import PklBindings.Proofs.Members

/-!
# The lines of a member

A member is text at the margin over text one level deep, and what the texts are depends on the kind
of its declaration (`Member.Layers`). The first and the last line of a member are never blank
(`Member.framed_of_ofDeclaration`).
-/

namespace PklBindings

/-! ## Visible lines -/

/-- Something in the text is not blank. -/
def Text.IsVisible (s : String) : Prop :=
  ∃ c ∈ s.toList, isBlank c = false

/-- There is a last text, and something in it is not blank. -/
def Text.EndVisibly (texts : List String) : Prop :=
  ∃ last, texts.getLast? = some last ∧ IsVisible last

/-- The first and the last line are there, and something stands on them. -/
structure BlockLine.Framed (lines : List BlockLine) : Prop where
  first : ∃ line, lines.head? = some line ∧ Text.IsVisible line.text
  last : ∃ line, lines.getLast? = some line ∧ Text.IsVisible line.text

theorem Text.trimmedLines_ne_nil (s : String) : trimmedLines s ≠ [] := by
  rw [trimmedLines, Ne, List.map_eq_nil_iff]
  exact splitLines_ne_nil s.toList

theorem Text.EndVisibly.append_left {texts : List String} (h : EndVisibly texts)
    (before : List String) : EndVisibly (before ++ texts) := by
  obtain ⟨last, hlast, hvisible⟩ := h
  exact ⟨last, by rw [List.getLast?_append, hlast, Option.some_or], hvisible⟩

theorem Text.endVisibly_of_forall {texts : List String} (hne : texts ≠ [])
    (h : ∀ s ∈ texts, IsVisible s) : EndVisibly texts :=
  ⟨_, List.getLast?_eq_some_getLast hne, h _ (List.getLast_mem hne)⟩

theorem DocComment.toList_commentLine (line : String) :
    (commentLine line).toList = '#' :: if line = "" then [] else ' ' :: line.toList := by
  rw [commentLine]
  split
  · rfl
  · exact String.toList_append

theorem BlockLine.text_atLevel (level : UInt32) (s : String) : (atLevel level s).text = s := by
  rw [atLevel]
  split
  · rename_i hempty
    rw [hempty]
    rfl
  · rfl

/-! ## Two levels -/

namespace Block

/-- Texts at the margin over texts one level deep. -/
def layers (outer inner : List String) : List BlockLine :=
  outer.map (.atLevel 0) ++ inner.map (.atLevel 1)

theorem lines_layers (outer inner : List String) :
    ((empty.addLines outer).indent.addLines inner).dedent.lines.toList = layers outer inner := by
  rw [lines_dedent, lines_addLines, lines_indent, lines_addLines]
  simp [layers, empty, indent]

/-- Of the texts one level deep, some in a row are those that are added to a block at that level. -/
theorem exists_layers_eq (outer before texts behind : List String) :
    ∃ front : Block, front.level = 1 ∧ layers outer (before ++ (texts ++ behind)) =
      (front.addLines texts).lines.toList ++ behind.map (.atLevel 1) := by
  have hlevel : ((empty.addLines outer).indent.addLines before).level = 1 := by
    rw [level_addLines, indent, level_addLines]
    rfl
  refine ⟨_, hlevel, ?_⟩
  have hlines := lines_layers outer before
  rw [lines_dedent] at hlines
  rw [lines_addLines, hlevel, hlines, layers, layers, List.map_append, List.map_append,
    List.append_assoc, List.append_assoc]

/-- Lines of two levels do not change when they are moved by no level. -/
theorem shift_zero_of_layers (outer inner : List String) :
    (layers outer inner).map (·.shift 0) = layers outer inner := by
  simp only [layers, List.map_append, List.map_map]
  congr 1 <;> exact List.map_congr_left fun s _ => BlockLine.shift_zero_atLevel _ s

theorem head?_layers {outer inner : List String} {s : String} (h : outer.head? = some s) :
    (layers outer inner).head? = some (.atLevel 0 s) := by
  rw [layers, List.head?_append, List.head?_map, h]
  rfl

theorem getLast?_layers {outer inner : List String} {s : String}
    (h : (outer ++ inner).getLast? = some s) :
    ∃ level, (layers outer inner).getLast? = some (.atLevel level s) := by
  rw [layers, List.getLast?_append, List.getLast?_map, List.getLast?_map]
  rw [List.getLast?_append] at h
  cases hinner : inner.getLast? with
  | none =>
      rw [hinner, Option.none_or] at h
      exact ⟨0, by rw [h]; rfl⟩
  | some t =>
      rw [hinner, Option.some_or] at h
      cases h
      exact ⟨1, rfl⟩

theorem framed_layers {outer inner : List String} {first : String}
    (hfirst : outer.head? = some first) (hvisible : Text.IsVisible first)
    (hend : Text.EndVisibly (outer ++ inner)) : BlockLine.Framed (layers outer inner) := by
  obtain ⟨last, hlast, hlastVisible⟩ := hend
  obtain ⟨level, hgetLast⟩ := getLast?_layers hlast
  refine ⟨⟨_, head?_layers hfirst, ?_⟩, _, hgetLast, ?_⟩
  · rwa [BlockLine.text_atLevel]
  · rwa [BlockLine.text_atLevel]

end Block

/-! ## The texts of a member -/

namespace Member

/-- The texts of the member of a declaration, at the margin and one level deep. -/
inductive Layers (d : Declaration) (target : Target) (m : Member) :
    List String → List String → Prop where
  | typeAlias {s : String} (kind_eq : d.kind = .typeAlias)
    (annotation_eq : d.aliasedType.annotation target = .ok s) :
    Layers d target m
      ((d.doc.map DocComment.commentLines).getD [] ++ [m.name ++ " = " ++ s]) []
  | enumeration (kind_eq : d.kind = .enumeration) :
    Layers d target m ["class " ++ m.name ++ "(str, Enum):"] (enumerationLines d.doc d.values)
  | dataclass {superclass : Option Binding} {fields : List DataField}
    (kind_eq : d.kind = .moduleClass ∨ d.kind = .ordinaryClass)
    (text : ClassText d target superclass fields m) :
    Layers d target m
      ["@dataclass", "class " ++ m.name ++ superclassClause target superclass ++ ":"]
      (dataclassLines d.qualifiedName d.doc fields)

variable {d : Declaration} {position : Nat} {target : Target} {m : Member}

theorem exists_layers_of_ofDeclaration (h : ofDeclaration d position target = .ok m) :
    ∃ outer inner, Layers d target m outer inner ∧
      m.body.lines.toList = Block.layers outer inner := by
  obtain ⟨-, hshape⟩ := ofDeclaration_eq_ok h
  cases hshape with
  | typeAlias hkind _ =>
      rw [ofDeclaration, hkind] at h
      obtain ⟨b, -, h⟩ := bind_eq_ok_iff.1 h
      obtain ⟨s, hs, h⟩ := bind_eq_ok_iff.1 h
      cases h
      refine ⟨_, _, .typeAlias hkind (PklType.requireAnnotation_eq_ok_iff.1 hs).2, ?_⟩
      rw [Block.lines_addLines, Block.layers]
      simp [Block.empty]
  | enumeration hkind _ =>
      rw [ofDeclaration, hkind] at h
      obtain ⟨b, -, h⟩ := bind_eq_ok_iff.1 h
      cases h
      exact ⟨_, _, .enumeration hkind,
        Block.lines_layers ["class " ++ b.name ++ "(str, Enum):"] _⟩
  | dataclass hkind htext =>
      refine ⟨_, _, .dataclass hkind htext, ?_⟩
      rw [htext.body_eq]
      exact Block.lines_layers _ _

/-! ## First and last lines -/

theorem isVisible_commentLine (line : String) : Text.IsVisible (DocComment.commentLine line) :=
  ⟨'#', by rw [DocComment.toList_commentLine]; exact List.mem_cons_self, rfl⟩

/-- A docstring ends with its closing triple quote. -/
theorem endVisibly_docstringLines (doc : String) :
    Text.EndVisibly (DocComment.docstringLines doc) := by
  rw [DocComment.docstringLines]
  split
  · exact ⟨_, List.getLast?_concat, '"', by decide, rfl⟩
  · refine ⟨_, rfl, '"', ?_, rfl⟩
    simp [DocComment.tripleQuote]

theorem isVisible_line (name value : String) : Text.IsVisible (EnumConstant.line name value) := by
  refine ⟨'=', ?_, rfl⟩
  simp [EnumConstant.line]

/-- The class of an enumeration ends with a constant. Without values it ends with its docstring,
and without that with `pass`. -/
theorem endVisibly_enumerationLines (doc : Option String) (values : List String) :
    Text.EndVisibly (enumerationLines doc values) := by
  rw [enumerationLines]
  cases values with
  | cons value values =>
      apply Text.EndVisibly.append_left
      apply Text.endVisibly_of_forall
      · simp [EnumConstant.names, EnumConstant.namesFrom]
      · intro s hs
        rw [← List.map_uncurry_zip_eq_zipWith] at hs
        obtain ⟨⟨name, value'⟩, -, rfl⟩ := List.mem_map.1 hs
        exact isVisible_line name value'
  | nil =>
      rw [List.zipWith_nil_right, List.append_nil]
      cases doc with
      | none => exact ⟨"pass", rfl, 'p', by decide, rfl⟩
      | some doc =>
          simp only [Option.map_some, Option.getD_some, Option.isNone_some, Bool.and_false,
            Bool.false_eq_true, if_false, List.append_nil]
          exact endVisibly_docstringLines doc

/-- A dataclass ends with the attribute that registers it. -/
theorem endVisibly_dataclassLines (key : String) (doc : Option String) (fields : List DataField) :
    Text.EndVisibly (dataclassLines key doc fields) := by
  refine ⟨_, List.getLast?_concat, '=', ?_, rfl⟩
  simp

/-- A member is framed by lines that are not blank. -/
theorem framed_of_ofDeclaration (h : ofDeclaration d position target = .ok m) :
    BlockLine.Framed m.body.lines.toList := by
  obtain ⟨outer, inner, hlayers, hlines⟩ := exists_layers_of_ofDeclaration h
  rw [hlines]
  cases hlayers with
  | @typeAlias s _ _ =>
      have hassignment : Text.IsVisible (m.name ++ " = " ++ s) := ⟨'=', by simp, rfl⟩
      have hend : Text.EndVisibly [m.name ++ " = " ++ s] := ⟨_, rfl, hassignment⟩
      cases hdoc : d.doc with
      | none => exact Block.framed_layers rfl hassignment (by simpa using hend)
      | some doc =>
          -- Documentation has a line at least, and all its lines are comments.
          obtain ⟨line, lines, htrimmed⟩ :=
            List.exists_cons_of_ne_nil (Text.trimmedLines_ne_nil doc)
          have hfirst : (((some doc).map DocComment.commentLines).getD [] ++
              [m.name ++ " = " ++ s]).head? = some (DocComment.commentLine line) := by
            simp [DocComment.commentLines, htrimmed]
          refine Block.framed_layers hfirst (isVisible_commentLine line) ?_
          rw [List.append_nil]
          exact hend.append_left _
  | enumeration _ =>
      exact Block.framed_layers rfl ⟨'c', by simp, rfl⟩
        ((endVisibly_enumerationLines d.doc d.values).append_left _)
  | dataclass _ _ =>
      exact Block.framed_layers rfl ⟨'@', by decide, rfl⟩
        ((endVisibly_dataclassLines _ _ _).append_left _)

end Member

end PklBindings
