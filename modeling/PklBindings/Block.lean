import PklBindings.Text

/-!
# Blocks of code

Lines of code with their indentation, and the level at which the next line is added. Levels are
32-bit words. A blank line has no indentation, whatever the level.
-/

namespace PklBindings

/-- One line: how many indent units stand in front of its text. -/
structure BlockLine where
  indent : UInt32
  text : String
  deriving DecidableEq, Repr

namespace BlockLine

/-- The line with nothing on it. -/
def blank : BlockLine := ⟨0, ""⟩

/-- A line at a level; without text it is blank. -/
def atLevel (level : UInt32) (text : String) : BlockLine :=
  if text = "" then blank else ⟨level, text⟩

/-- The line moved to the right; without text it is blank. -/
def shift (line : BlockLine) (levels : UInt32) : BlockLine :=
  if line.text = "" then blank else ⟨levels + line.indent, line.text⟩

/-- The line as text, with its line feed. -/
def render (line : BlockLine) (indentUnit : String) : String :=
  if line.text = "" then "\n"
  else String.join (List.replicate line.indent.toNat indentUnit) ++ line.text ++ "\n"

end BlockLine

/-- Lines in order, and the level of the next one. -/
structure Block where
  level : UInt32 := 0
  lines : Array BlockLine := #[]
  deriving DecidableEq, Repr

namespace Block

/-- The block without lines at level zero. -/
def empty : Block := {}

/-- Adds a line at the current level. -/
def addLine (block : Block) (text : String) : Block :=
  { block with lines := block.lines.push (.atLevel block.level text) }

/-- Adds a blank line. -/
def addBlank (block : Block) : Block :=
  { block with lines := block.lines.push .blank }

/-- Adds lines at the current level. -/
def addLines (block : Block) (texts : List String) : Block :=
  texts.foldl addLine block

/-- Adds the lines of a text, each without the blanks at its end. -/
def addText (block : Block) (text : String) : Block :=
  block.addLines (Text.trimmedLines text)

/-- Goes one level deeper. -/
def indent (block : Block) : Block :=
  { block with level := block.level + 1 }

/-- Goes back one level; at level zero nothing changes. -/
def dedent (block : Block) : Block :=
  if block.level = 0 then block else { block with level := block.level - 1 }

/-- Adds the lines of another block, moved right by the current level and `extra` more. -/
def addBlock (block other : Block) (extra : UInt32 := 0) : Block :=
  { block with lines := block.lines ++ other.lines.map (·.shift (block.level + extra)) }

/-- The text of the block: every line with its line feed. -/
def render (block : Block) (indentUnit : String) : String :=
  String.join (block.lines.toList.map (·.render indentUnit))

@[simp] theorem level_addLine (block : Block) (s : String) :
    (block.addLine s).level = block.level := rfl

@[simp] theorem level_addBlock (block other : Block) (extra : UInt32) :
    (block.addBlock other extra).level = block.level := rfl

@[simp] theorem level_addLines (block : Block) (texts : List String) :
    (block.addLines texts).level = block.level := by
  unfold addLines
  induction texts generalizing block with
  | nil => rfl
  | cons t ts ih => exact ih (block.addLine t)

/-- Adding lines puts each text at the level of the block. -/
theorem lines_addLines (block : Block) (texts : List String) :
    (block.addLines texts).lines.toList =
      block.lines.toList ++ texts.map (BlockLine.atLevel block.level) := by
  unfold addLines
  induction texts generalizing block with
  | nil => simp
  | cons t ts ih =>
    rw [List.foldl_cons, ih]
    simp [addLine]

end Block

end PklBindings
