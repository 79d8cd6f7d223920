import PklBindings.Proofs.FirstOccurrences
import PklBindings.Proofs.GenerationFaults
import PklBindings.Proofs.MemberLines

/-!
# The layout of a document

A module either has a fault of its own or a document, and every document is laid out in the same
way (`Module.document_layout`): the header and the imports, every unit that the members need once
and in order of first occurrence, the bodies of the members with one blank line between two of
them, and behind the last body, which is that of the module class, the method that loads a module.
-/

namespace PklBindings

/-- The text ends with a line feed, and there is no other one in front of that. -/
def Text.EndsWithOneLineFeed (s : String) : Prop :=
  ∃ cs c, s.toList = cs ++ [c, '\n'] ∧ c ≠ '\n'

namespace Document

/-- The lines of the method that loads a module. -/
def loaderLines (typeName : String) : List BlockLine :=
  [⟨1, "@classmethod"⟩,
   ⟨1, "def load_pkl(cls, source):"⟩,
   ⟨2, "# Load the Pkl module at the given source and evaluate it into `" ++ typeName ++ "`."⟩,
   ⟨2, "# - Parameter source: The source of the Pkl module."⟩,
   ⟨2, "config = pkl.load(source, parser=pkl.Parser(namespace = globals()))"⟩,
   ⟨2, "return config"⟩]

/-- The lines of a document, part after part. -/
def layout (header units : List String) (members : List Member) (typeName : String) :
    List BlockLine :=
  header.map (.atLevel 0) ++ preamble.map (.atLevel 0) ++ units.flatMap (Block.textLines 0) ++
    [.blank, .blank] ++ [BlockLine.blank].intercalate (members.map (·.body.lines.toList)) ++
    [.blank] ++ loaderLines typeName

theorem lines_loader (typeName : String) :
    (loader typeName).lines.toList.map (·.shift 0) = loaderLines typeName := by
  rw [loader, Block.lines_addLines, Block.lines_indent, Block.lines_addLines]
  simp [loaderLines, Block.empty, Block.indent, BlockLine.atLevel, BlockLine.shift]

theorem bodies_eq_intercalate {members : List Member}
    (h : ∀ member ∈ members, bodyLines member = member.body.lines.toList) :
    bodies members = [BlockLine.blank].intercalate (members.map (·.body.lines.toList)) := by
  cases members with
  | nil => rfl
  | cons first others =>
      rw [List.forall_mem_cons] at h
      rw [bodies, List.map_cons, h.1]
      have hothers := h.2
      clear h
      -- Every body but the first one stands behind its blank line.
      induction others generalizing first with
      | nil => simp
      | cons second others ih =>
          rw [List.forall_mem_cons] at hothers
          rw [List.flatMap_cons, hothers.1, List.map_cons, List.intercalate_cons_cons,
            ← ih second hothers.2]
          simp

/-- The lines of a document whose members stand in it as they are. -/
theorem lines_block_eq_layout (header : List String) (typeName : String) {members : List Member}
    (h : ∀ member ∈ members, bodyLines member = member.body.lines.toList) :
    (block header typeName members).lines.toList =
      layout header (units members) members typeName := by
  rw [lines_block, lines_loader, bodies_eq_intercalate h, layout, List.map_append]
  simp only [List.append_assoc, List.singleton_append]

/-- Every document ends with the last line of the method that loads a module. -/
theorem endsWithOneLineFeed_layout (header units : List String) (members : List Member)
    (typeName indentUnit : String) :
    Text.EndsWithOneLineFeed
      (String.join ((layout header units members typeName).map (·.render indentUnit))) := by
  -- Whatever stands in front, the last line is the same.
  obtain ⟨front, hfront⟩ : ∃ front, layout header units members typeName =
      front ++ [⟨2, "return config"⟩] :=
    ⟨_, (List.append_assoc _ (loaderLines typeName).dropLast [⟨2, "return config"⟩]).symm⟩
  refine ⟨(front.map (·.render indentUnit)).flatMap String.toList ++
    (String.join (List.replicate 2 indentUnit)).toList ++ "return confi".toList, 'g', ?_,
    by decide⟩
  rw [hfront, List.map_append, String.toList_join, List.flatMap_append]
  simp [BlockLine.render, String.toList_append]

end Document

namespace Module

theorem bodyLines_of_mem {m : Module} {target : Target} {members : List Member}
    (h : m.Arranged target members) : ∀ member ∈ members,
      Document.bodyLines member = member.body.lines.toList ∧
        BlockLine.Framed member.body.lines.toList := by
  intro member hmember
  obtain ⟨d, -, hmade⟩ := h.ofDeclaration_of_mem member hmember
  refine ⟨?_, Member.framed_of_ofDeclaration hmade⟩
  obtain ⟨outer, inner, -, hlines⟩ := Member.exists_layers_of_ofDeclaration hmade
  rw [Document.bodyLines, hlines, Block.shift_zero_of_layers]

/-- The document of a module is laid out with the bodies of `others` and behind them that of
`root`, which belongs to the module class. -/
structure LaidOut (m : Module) (target : Target) (header : List String) (others : List Member)
    (root : Member) (units : List String) (document : Document) : Prop where
  members_eq : m.orderedMembers target = .ok (others ++ [root])
  emitsAll : m.EmitsAll target (others ++ [root])
  root_isModuleClass : root.isModuleClass = true
  others_not_isModuleClass : ∀ member ∈ others, member.isModuleClass = false
  /-- Every unit that a member needs stands there once. -/
  units_first : FirstOccurrences ((others ++ [root]).flatMap (·.units)) units
  /-- No body begins or ends with a blank line. -/
  framed : ∀ member ∈ others ++ [root], BlockLine.Framed member.body.lines.toList
  text_eq : ∃ d, m.moduleClass? = some d ∧ root.key = d.qualifiedName ∧
    document.text = String.join
      ((Document.layout header units (others ++ [root]) (m.name ++ "." ++ d.name)).map
        (·.render target.indentUnit))
  endsWithOneLineFeed : Text.EndsWithOneLineFeed document.text

/-- A module never fails because its module class does not come last, and every document that it
gets is laid out as documents are. -/
theorem document_layout (m : Module) (target : Target) (header : List String) :
    (∀ name, m.document target header ≠ .error (.moduleClassNotLast name)) ∧
      ∀ document, m.document target header = .ok document →
        ∃ others root units, m.LaidOut target header others root units document := by
  constructor
  · -- None of the faults of a module is reported with this error.
    intro name h
    cases fault_of_document h with
    | member _ hfault =>
        cases hfault with
        | property _ _ _ hfault => cases hfault
  · intro document h
    obtain ⟨members, hordered, hof⟩ := document_eq_ok_iff.1 h
    have harranged := orderedMembers_eq_ok_iff.1 hordered
    obtain ⟨others, root, d, rfl, hroot, hothers, hclass, hkey⟩ := harranged.exists_root
    have hbodies := bodyLines_of_mem harranged
    have htext : document.text = String.join
        ((Document.layout header (Document.units (others ++ [root])) (others ++ [root])
          (m.name ++ "." ++ d.name)).map (·.render target.indentUnit)) := by
      rw [(Document.ofMembers_eq_ok_iff.1 hof).2, hclass, Block.render,
        Document.lines_block_eq_layout _ _ fun member hmember => (hbodies member hmember).1]
      rfl
    refine ⟨others, root, _, hordered, harranged.emitsAll, hroot, hothers,
      firstOccurrences_eraseDups _, fun member hmember => (hbodies member hmember).2,
      ⟨d, hclass, hkey, htext⟩, ?_⟩
    rw [htext]
    exact Document.endsWithOneLineFeed_layout _ _ _ _ _

/-- The module with an alias of a class has its document, and it is laid out so. -/
theorem document_layout_petModule :
    (∀ name, petModule.document petTarget [] ≠ .error (.moduleClassNotLast name)) ∧
      ∃ document, petModule.document petTarget [] = .ok document ∧
        ∃ others root units, petModule.LaidOut petTarget [] others root units document := by
  obtain ⟨document, -, hdocument, -, -⟩ := document_petModule
  exact ⟨(document_layout petModule petTarget []).1, document, hdocument,
    (document_layout petModule petTarget []).2 document hdocument⟩

end Module

end PklBindings
