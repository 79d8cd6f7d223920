import PklBindings.Disk.Writing
import PklBindings.Generation
import PklBindings.Reflection.Decoder
import PklBindings.Settings

/-!
# Emission

From documents on a disk to modules on a disk: schemas and settings are read from files, and the
generated documents are written below the output directory. Nothing is written unless every
document of the schema is generated.
-/

namespace PklBindings

variable {m : Type → Type} [Monad m] [FileSystem m]

/-- The schema in a file. -/
def Schema.ofFile (reader : TextReader) (path : String) : m (Except SchemaError Schema) := do
  match ← FileSystem.readText path with
  | none => return .error (.unreadable path)
  | some text => return Schema.ofText reader path text

/-- Applies the settings in a file. -/
def Settings.applyFile (reader : TextReader) (path : String) (options : Options)
    (diagnostics : Diagnostics) : m SettingsOutcome := do
  match ← FileSystem.readText path with
  | none => return ⟨.error (.unreadable path), options, diagnostics⟩
  | some text => return Settings.applyText reader path text options diagnostics

/-- Why a schema is not emitted. -/
inductive EmissionError where
  | noOutDir
  | generation (error : GenerationError)
  | write (error : WriteError)
  deriving DecidableEq, Repr

/-- The reason in words. -/
def EmissionError.message : EmissionError → String
  | noOutDir => "output directory is required"
  | generation error => error.message
  | write error => error.message

/-- What is left after an emission: whether it was done, the remarks, and the outputs that were
tried. -/
structure Emission where
  result : Except EmissionError Unit
  diagnostics : Diagnostics
  recorded : List String

/-- The files of documents. -/
def Options.filesOf (options : Options) (documents : List Document) : List (String × String) :=
  documents.map fun d => (DiskPath.join options.outDir d.fileName, d.text)

/-- Generates the documents of a schema and writes them. -/
def Schema.emit (schema : Schema) (options : Options) (diagnostics : Diagnostics) :
    m Emission := do
  if options.outDir = "" then return ⟨.error .noOutDir, diagnostics, []⟩
  else
    match (schema.generate options).run.run diagnostics with
    | (.error e, diagnostics) => return ⟨.error (.generation e), diagnostics, []⟩
    | (.ok documents, diagnostics) =>
      let (recorded, result) ← FileSystem.writeFiles options.policy (options.filesOf documents)
      return ⟨result.mapError .write, diagnostics, recorded⟩

end PklBindings
