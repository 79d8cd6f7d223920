/-!
# Options

What the user decides about the generated modules and where they go.
-/

namespace PklBindings

/-- How files are put on the disk. To have the outputs recorded is no part of it: they always are,
and who writes the files is given the record (`FileSystem.writeFiles`). -/
structure WritePolicy where
  /-- Writes nothing. -/
  dryRun : Bool := false
  /-- Refuses to replace a file. -/
  noOverwrite : Bool := false
  /-- The access rights of a written file; only the lowest nine bits count. -/
  fileMode : UInt32 := 0o444
  deriving DecidableEq, Repr

/-- Layout, names and place of the generated modules. -/
structure Options where
  /-- The output directory; there is none while it is empty. -/
  outDir : String := ""
  /-- What stands for one level of indentation. -/
  indentUnit : String := "    "
  /-- The suffix of the names by which namespaces are imported. -/
  fileSuffix : String := "pkl"
  /-- The lines at the head of every document, or none for the default header. -/
  headerLines : List String := []
  policy : WritePolicy := {}
  deriving DecidableEq, Repr

end PklBindings
