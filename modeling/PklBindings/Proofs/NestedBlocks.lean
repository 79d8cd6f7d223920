import PklBindings.Proofs.DocumentLines

/-!
# Nested blocks

Blocks are put together from lines and from other blocks. However that is done, blank lines have no
indentation (`Block.Built.isNeat`). A block that is added to another one shows as its own lines,
each behind as many more indent units as the other's level asks for (`Block.render_addBlock`), and
it makes no difference whether a third block is added to it before or to the other one behind it
(`Block.addBlock_addBlock`).
-/

namespace PklBindings

/-! ## Lines -/

namespace BlockLine

variable {line : BlockLine} {levels : UInt32} {units : Nat} {indentUnit : String}

/-- Without text there is no indentation. -/
def IsNeat (line : BlockLine) : Prop :=
  line.text = "" → line.indent = 0

theorem isNeat_blank : blank.IsNeat := fun _ => rfl

theorem isNeat_atLevel (level : UInt32) (text : String) : (atLevel level text).IsNeat := by
  rw [atLevel]
  split
  · exact isNeat_blank
  · exact fun hempty => absurd hempty ‹_›

theorem isNeat_shift (line : BlockLine) (levels : UInt32) : (line.shift levels).IsNeat := by
  rw [shift]
  split
  · exact isNeat_blank
  · exact fun hempty => absurd hempty ‹_›

theorem shift_shift (line : BlockLine) (levels more : UInt32) :
    (line.shift levels).shift more = line.shift (more + levels) := by
  by_cases hempty : line.text = ""
  · simp [shift, blank, hempty]
  · simp [shift, hempty, UInt32.add_assoc]

/-- The line as text, behind further indent units unless it is blank. -/
def renderBehind (line : BlockLine) (units : Nat) (indentUnit : String) : String :=
  if line.text = "" then line.render indentUnit
  else String.join (List.replicate units indentUnit) ++ line.render indentUnit

/-- Moved lines have further units in front of them. Levels are words, so the sum has to be one. -/
theorem render_shift
    (h : line.text ≠ "" → (levels + line.indent).toNat = units + line.indent.toNat) :
    (line.shift levels).render indentUnit = line.renderBehind units indentUnit := by
  by_cases hempty : line.text = ""
  · simp [shift, blank, render, renderBehind, hempty]
  · rw [shift, if_neg hempty, render, if_neg hempty, renderBehind, if_neg hempty, render,
      if_neg hempty, h hempty, ← List.replicate_append_replicate, String.join_append,
      String.append_assoc, String.append_assoc, String.append_assoc]

end BlockLine

namespace Block

/-! ## Blocks that are put together -/

/-- The blocks that come from the empty one by adding lines, texts and other such blocks and by
changing the level. -/
inductive Built : Block → Prop where
  | empty : Built .empty
  | addLine {block : Block} (h : Built block) (text : String) : Built (block.addLine text)
  | addBlank {block : Block} (h : Built block) : Built block.addBlank
  | addText {block : Block} (h : Built block) (text : String) : Built (block.addText text)
  | indent {block : Block} (h : Built block) : Built block.indent
  | dedent {block : Block} (h : Built block) : Built block.dedent
  | addBlock {block other : Block} (h : Built block) (hother : Built other) (extra : UInt32) :
    Built (block.addBlock other extra)

theorem lines_addLine (block : Block) (text : String) :
    (block.addLine text).lines.toList = block.lines.toList ++ [.atLevel block.level text] := by
  simp [addLine]

theorem lines_addText (block : Block) (text : String) :
    (block.addText text).lines.toList = block.lines.toList ++ textLines block.level text :=
  lines_addLines block _

/-- Whatever a block is put together from, its blank lines have no indentation. -/
theorem Built.isNeat {block : Block} (h : Built block) :
    ∀ line ∈ block.lines.toList, line.IsNeat := by
  induction h with
  | empty => simp [Block.empty]
  | addLine _ text ih =>
      rw [lines_addLine, List.forall_mem_append]
      exact ⟨ih, by simpa using BlockLine.isNeat_atLevel _ text⟩
  | addBlank _ ih =>
      rw [lines_addBlank, List.forall_mem_append]
      exact ⟨ih, by simpa using BlockLine.isNeat_blank⟩
  | addText _ text ih =>
      rw [lines_addText, List.forall_mem_append]
      refine ⟨ih, fun line hline => ?_⟩
      obtain ⟨piece, -, rfl⟩ := List.mem_map.1 hline
      exact BlockLine.isNeat_atLevel _ piece
  | indent _ ih => rwa [lines_indent]
  | dedent _ ih => rwa [lines_dedent]
  | addBlock _ _ extra ih _ =>
      rw [lines_addBlock, List.forall_mem_append]
      refine ⟨ih, fun line hline => ?_⟩
      obtain ⟨moved, -, rfl⟩ := List.mem_map.1 hline
      exact BlockLine.isNeat_shift moved _

/-! ## Blocks in blocks -/

/-- With the other block added, no line of it gets beyond the levels that there are. -/
def HasRoomFor (block other : Block) (extra : UInt32) : Prop :=
  ∀ line ∈ other.lines.toList, line.text ≠ "" →
    block.level.toNat + extra.toNat + line.indent.toNat < UInt32.size

theorem render_addBlock {block other : Block} {extra : UInt32}
    (h : block.HasRoomFor other extra) (indentUnit : String) :
    (block.addBlock other extra).render indentUnit = block.render indentUnit ++
      String.join (other.lines.toList.map
        (·.renderBehind (block.level.toNat + extra.toNat) indentUnit)) := by
  rw [render, lines_addBlock, List.map_append, String.join_append, List.map_map, render]
  congr 2
  apply List.map_congr_left
  intro line hline
  apply BlockLine.render_shift
  intro htext
  -- With room for the line, neither of the two sums of levels wraps around.
  have hroom := h line hline htext
  rw [UInt32.toNat_add, UInt32.toNat_add, Nat.mod_add_mod, Nat.mod_eq_of_lt hroom]

/-- A block that is added to another one before that is added itself might be added behind it, as
much further to the right as the other's level asks for. -/
theorem addBlock_addBlock (block other inner : Block) (extra : UInt32) :
    block.addBlock (other.addBlock inner) extra =
      (block.addBlock other extra).addBlock inner (extra + other.level) := by
  have hlines : (block.addBlock (other.addBlock inner) extra).lines =
      ((block.addBlock other extra).addBlock inner (extra + other.level)).lines := by
    apply Array.toList_inj.1
    simp [BlockLine.shift_shift, UInt32.add_assoc]
  exact congrArg (Block.mk block.level) hlines

/-- Blank lines have no indentation in blocks that are put together. A block that is added to
another one leaves the level of that one as it is, shows behind the other's lines as its own lines
further to the right, and may have been put together from blocks that could as well be added one
after the other. -/
theorem blocks_nest :
    (∀ block : Block, Built block →
      ∀ line ∈ block.lines.toList, line.text = "" → line.indent = 0) ∧
    (∀ (block other : Block) (extra : UInt32),
      (block.addBlock other extra).level = block.level) ∧
    (∀ (block other : Block) (extra : UInt32) (indentUnit : String),
      block.HasRoomFor other extra →
      (block.addBlock other extra).render indentUnit = block.render indentUnit ++
        String.join (other.lines.toList.map
          (·.renderBehind (block.level.toNat + extra.toNat) indentUnit))) ∧
    ∀ (block other inner : Block) (extra : UInt32),
      block.addBlock (other.addBlock inner) extra =
        (block.addBlock other extra).addBlock inner (extra + other.level) :=
  ⟨fun _ h => h.isNeat, level_addBlock, fun _ _ _ indentUnit h => render_addBlock h indentUnit,
    addBlock_addBlock⟩

/-- A method with a blank line in it. -/
def methodBlock : Block :=
  ((empty.addLine "def f():").indent.addText "x = 1\n\nreturn x").dedent

/-- The beginning of a class, with the next line one level deep. -/
def classBlock : Block :=
  (empty.addLine "class C:").indent

theorem blocks_nest_methodBlock :
    Built methodBlock ∧ classBlock.HasRoomFor methodBlock 1 ∧
      (∀ line ∈ methodBlock.lines.toList, line.text = "" → line.indent = 0) ∧
      (classBlock.addBlock methodBlock 1).render "\t" =
        "class C:\n\t\tdef f():\n\t\t\tx = 1\n\n\t\t\treturn x\n" := by
  have hbuilt : Built methodBlock := .dedent (.addText (.indent (.addLine .empty _)) _)
  have hroom : classBlock.HasRoomFor methodBlock 1 := by
    unfold HasRoomFor
    decide
  obtain ⟨hneat, -, hrender, -⟩ := blocks_nest
  refine ⟨hbuilt, hroom, hneat _ hbuilt, ?_⟩
  rw [hrender _ _ _ _ hroom]
  decide

end Block

end PklBindings
