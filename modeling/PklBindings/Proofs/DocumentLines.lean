import PklBindings.Document

/-!
# The lines of a document

A document is its lines one after another: the header, the lines of the units that members need,
the bodies of the members with blank lines between them, and the method that loads a module
(`lines_block`). Bodies and units stand there in one piece (`body_infix_block`,
`unit_infix_block`).
-/

namespace PklBindings

namespace BlockLine

theorem shift_zero_atLevel (level : UInt32) (text : String) :
    (atLevel level text).shift 0 = atLevel level text := by
  by_cases hempty : text = ""
  · simp [atLevel, shift, blank, hempty]
  · simp [atLevel, shift, hempty]

end BlockLine

namespace Block

/-! ## Lines and levels -/

@[simp] theorem level_addBlank (block : Block) : block.addBlank.level = block.level := rfl

@[simp] theorem level_addText (block : Block) (s : String) :
    (block.addText s).level = block.level :=
  level_addLines block _

@[simp] theorem lines_addBlank (block : Block) :
    block.addBlank.lines.toList = block.lines.toList ++ [.blank] := by
  simp [addBlank]

@[simp] theorem lines_addBlock (block other : Block) (extra : UInt32) :
    (block.addBlock other extra).lines.toList =
      block.lines.toList ++ other.lines.toList.map (·.shift (block.level + extra)) := by
  simp [addBlock]

@[simp] theorem lines_indent (block : Block) : block.indent.lines = block.lines := rfl

@[simp] theorem lines_dedent (block : Block) : block.dedent.lines = block.lines := by
  rw [dedent]
  split <;> rfl

@[simp] theorem level_foldl_addText (block : Block) (texts : List String) :
    (texts.foldl addText block).level = block.level := by
  induction texts generalizing block with
  | nil => rfl
  | cons t ts ih => rw [List.foldl_cons, ih, level_addText]

/-- The lines of a text, as they stand at a level. -/
def textLines (level : UInt32) (s : String) : List BlockLine :=
  (Text.trimmedLines s).map (.atLevel level)

theorem lines_foldl_addText (block : Block) (texts : List String) :
    (texts.foldl addText block).lines.toList =
      block.lines.toList ++ texts.flatMap (textLines block.level) := by
  induction texts generalizing block with
  | nil => simp
  | cons t ts ih =>
      rw [List.foldl_cons, ih, level_addText, addText, lines_addLines, List.flatMap_cons,
        List.append_assoc, textLines]

end Block

namespace Document

/-! ## The parts of a document -/

/-- The lines of a member's body in a document. -/
def bodyLines (m : Member) : List BlockLine :=
  m.body.lines.toList.map (·.shift 0)

theorem lines_foldl_addBlock {block : Block} (hlevel : block.level = 0) (members : List Member) :
    (members.foldl (fun b n => b.addBlank.addBlock n.body) block).lines.toList =
      block.lines.toList ++ members.flatMap fun m => .blank :: bodyLines m := by
  induction members generalizing block with
  | nil => simp
  | cons m ms ih =>
      rw [List.foldl_cons, ih (by simpa using hlevel)]
      simp [bodyLines, hlevel]

/-- The lines of the bodies of members, with a blank line between two of them. -/
def bodies : List Member → List BlockLine
  | [] => []
  | m :: ms => bodyLines m ++ ms.flatMap fun n => .blank :: bodyLines n

theorem lines_addBodies {block : Block} (hlevel : block.level = 0) (members : List Member) :
    (addBodies block members).lines.toList = block.lines.toList ++ bodies members := by
  cases members with
  | nil => simp [addBodies, bodies]
  | cons m ms =>
      rw [addBodies, lines_foldl_addBlock (by simpa using hlevel)]
      simp [bodies, bodyLines, hlevel]

theorem level_foldl_addBlock (block : Block) (members : List Member) :
    (members.foldl (fun b n => b.addBlank.addBlock n.body) block).level = block.level := by
  induction members generalizing block with
  | nil => rfl
  | cons m ms ih => rw [List.foldl_cons, ih, Block.level_addBlock, Block.level_addBlank]

theorem level_addBodies (block : Block) (members : List Member) :
    (addBodies block members).level = block.level := by
  cases members with
  | nil => rfl
  | cons m ms => rw [addBodies, level_foldl_addBlock, Block.level_addBlock]

/-- A document from the first line to the last. -/
theorem lines_block (header : List String) (typeName : String) (members : List Member) :
    (block header typeName members).lines.toList =
      (header ++ preamble).map (.atLevel 0) ++ (units members).flatMap (Block.textLines 0) ++
        [.blank, .blank] ++ bodies members ++
        .blank :: (loader typeName).lines.toList.map (·.shift 0) := by
  -- Nothing on the way leaves level zero, so bodies and units are not moved.
  have hhead : (Block.empty.addLines (header ++ preamble)).level = 0 := by
    rw [Block.level_addLines]
    rfl
  simp only [block, Block.lines_addBlock, Block.lines_addBlank]
  rw [lines_addBodies (by simpa using hhead), Block.level_addBlank, level_addBodies]
  simp [Block.lines_foldl_addText, Block.lines_addLines, Block.empty]

/-! ## What stands in a document in one piece -/

theorem bodyLines_infix_bodies {members : List Member} {m : Member} (hm : m ∈ members) :
    bodyLines m <:+: bodies members := by
  cases members with
  | nil => simp at hm
  | cons first others =>
      rw [bodies]
      rcases List.mem_cons.1 hm with rfl | hm
      · exact List.infix_append_left
      · -- Every body but the first stands behind a blank line.
        apply List.infix_append_of_infix_right
        obtain ⟨before, after, rfl⟩ := List.append_of_mem hm
        rw [List.flatMap_append, List.flatMap_cons]
        exact List.infix_append_of_infix_right
          (List.infix_append_of_infix_left (List.infix_cons List.infix_rfl))

/-- The body of every member stands in the document in one piece. -/
theorem body_infix_block (header : List String) (typeName : String) {members : List Member}
    {m : Member} (hm : m ∈ members) :
    bodyLines m <:+: (block header typeName members).lines.toList := by
  rw [lines_block]
  apply List.infix_append_of_infix_left
  exact List.infix_append_of_infix_right (bodyLines_infix_bodies hm)

/-- Every unit that a member needs stands in the document in one piece. -/
theorem unit_infix_block (header : List String) (typeName : String) {members : List Member}
    {m : Member} (hm : m ∈ members) {unit : String} (hunit : unit ∈ m.units) :
    Block.textLines 0 unit <:+: (block header typeName members).lines.toList := by
  have hneeded : unit ∈ units members := by
    rw [units, List.mem_eraseDups, List.mem_flatMap]
    exact ⟨m, hm, hunit⟩
  have hpiece : Block.textLines 0 unit <:+: (units members).flatMap (Block.textLines 0) := by
    rw [List.flatMap_def]
    exact List.infix_of_mem_flatten (List.mem_map_of_mem hneeded)
  rw [lines_block]
  iterate 3 apply List.infix_append_of_infix_left
  exact List.infix_append_of_infix_right hpiece

end Document

end PklBindings
