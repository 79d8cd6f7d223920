import PklBindings.Emission

/-!
# The command line

The program takes a schema file and options, and generates the modules of the schema. Options on
the command line go before those of a settings file; a switch may be turned on in either place.
JSON and the width of an indent unit are read by the library of texts that the program is given.
-/

namespace PklBindings

/-- What the arguments ask for. -/
structure Arguments where
  /-- The schema file; there is none while it is empty. -/
  schemaFile : String := ""
  /-- The settings file; there is none while it is empty. -/
  settingsFile : String := ""
  outDir : Option String := none
  indentUnit : Option String := none
  fileSuffix : Option String := none
  dryRun : Bool := false
  noOverwrite : Bool := false
  deriving DecidableEq, Repr

/-- Why the arguments are refused. -/
inductive UsageError where
  | noArguments
  | missingValue (option : String)
  /-- The width is not a decimal integer of 64 bits. -/
  | badWidth (value : String)
  /-- No indent unit has the width. -/
  | widthOutOfRange (width : Int)
  | emptySuffix
  | unknownOption (argument : String)
  | unexpectedArgument (argument : String)
  | noSchemaFile
  | noOutDir
  deriving DecidableEq, Repr

/-- The options that take a value. -/
inductive ValueOption where
  | outDir
  | settings
  | indent
  | suffix
  deriving DecidableEq, Repr

/-- The option that an argument is. -/
def ValueOption.ofArgument? : String → Option ValueOption
  | "--out-dir" => some .outDir
  | "--settings" => some .settings
  | "--indent" => some .indent
  | "--suffix" => some .suffix
  | _ => none

/-- What the program is to do. -/
inductive Request where
  | help
  | generate (arguments : Arguments)
  deriving DecidableEq, Repr

namespace UsageError

/-- How the program is used. -/
def usage : String :=
  "Usage: pkl-gen-python <schema.json> [--out-dir <dir>] [options]\n" ++
  "Try: pkl-gen-python --help\n"

/-- The reason in words. -/
def reason : UsageError → String
  | noArguments => ""
  | missingValue option => "Missing value for " ++ option ++ "\n"
  | badWidth value => "Invalid --indent value: " ++ value ++ "\n"
  | widthOutOfRange width => "Invalid --indent value: " ++ indentWidthMessage width ++ "\n"
  | emptySuffix => "Invalid --suffix value: suffix must not be empty\n"
  | unknownOption argument => "Unknown option: " ++ argument ++ "\n"
  | unexpectedArgument argument => "Unexpected argument: " ++ argument ++ "\n"
  | noSchemaFile => "A reflected schema file is required\n"
  | noOutDir => "--out-dir is required\n"

/-- The reason and how the program is used. -/
def message (e : UsageError) : String :=
  e.reason ++ usage

end UsageError

namespace Arguments

/-- The help text. -/
def help : String :=
  "NAME\n" ++
  "  pkl-gen-python - Python dataclass generator for reflected Pkl schemas\n\n" ++
  "SYNOPSIS\n" ++
  "  pkl-gen-python <schema.json> [--out-dir <dir>] [--settings <file>] [options]\n" ++
  "  pkl-gen-python --help\n\n" ++
  "DESCRIPTION\n" ++
  "  pkl-gen-python reads the JSON reflection of a Pkl module tree and writes one Python\n" ++
  "  module per target namespace, named <namespace>_<suffix>.py. Each module holds the\n" ++
  "  namespace's type aliases, enums and @dataclass classes in dependency order, with a\n" ++
  "  load_pkl class method on the module class.\n\n" ++
  "OPTIONS\n" ++
  "  --out-dir <dir>\n" ++
  "      Output directory for generated files. Required unless set by --settings.\n" ++
  "  --settings <file>\n" ++
  "      JSON generator settings (indent, fileSuffix, outputDirectory, dryRun,\n" ++
  "      noOverwrite, headerLines). Command-line options take precedence.\n" ++
  "  --indent <n>\n" ++
  "      Indent generated code with <n> spaces (1-16, default 4).\n" ++
  "  --suffix <text>\n" ++
  "      Output file suffix (default: pkl).\n" ++
  "  --dry-run\n" ++
  "      Generate and validate, print output paths, write nothing.\n" ++
  "  --no-overwrite\n" ++
  "      Fail instead of replacing an existing output file.\n" ++
  "  --help, -h\n" ++
  "      Print this help text.\n\n" ++
  "EXAMPLES\n" ++
  "  pkl-gen-python build/Classes.reflect.json --out-dir gen\n" ++
  "  pkl-gen-python build/Classes.reflect.json --settings pkl-gen.json --dry-run\n\n" ++
  "EXIT STATUS\n" ++
  "  0 on success, non-zero on input, name-collision, generation or write failure, or invalid\n" ++
  "  CLI usage.\n"

/-- The indent unit of a width on the command line. -/
def indentUnitOf (reader : TextReader) (value : String) : Except UsageError String :=
  match reader.integer value with
  | none => .error (.badWidth value)
  | some width =>
    match indentOfWidth? width.toInt with
    | none => .error (.widthOutOfRange width.toInt)
    | some unit => .ok unit

/-- Whether the argument asks for help. -/
def isHelp (argument : String) : Bool :=
  argument = "--help" || argument = "-h"

/-- Takes a switch, if the argument is one. -/
def switch? (a : Arguments) : String → Option Arguments
  | "--dry-run" => some { a with dryRun := true }
  | "--no-overwrite" => some { a with noOverwrite := true }
  | _ => none

/-- Takes the value of an option. -/
def setOption (reader : TextReader) (a : Arguments) (value : String) :
    ValueOption → Except UsageError Arguments
  | .outDir => .ok { a with outDir := some value }
  | .settings => .ok { a with settingsFile := value }
  | .indent => (indentUnitOf reader value).map fun unit => { a with indentUnit := some unit }
  | .suffix => if value = "" then .error .emptySuffix else .ok { a with fileSuffix := some value }

/-- Takes an argument that is neither help nor an option nor a switch: the schema file, unless
there is one. An empty argument leaves the schema file empty. -/
def positional (a : Arguments) (argument : String) : Except UsageError Arguments :=
  if argument.toList.head? = some '-' then .error (.unknownOption argument)
  else if a.schemaFile = "" then .ok { a with schemaFile := argument }
  else .error (.unexpectedArgument argument)

/-- Takes arguments from the left. An option takes the argument behind it, whatever that is. -/
def take (reader : TextReader) (a : Arguments) : List String → Except UsageError Request
  | [] => if a.schemaFile = "" then .error .noSchemaFile else .ok (.generate a)
  | argument :: rest =>
    if isHelp argument then .ok .help
    else
      match ValueOption.ofArgument? argument, rest with
      | some _, [] => .error (.missingValue argument)
      | some option, value :: rest =>
        match a.setOption reader value option with
        | .ok a => take reader a rest
        | .error e => .error e
      | none, rest =>
        match a.switch? argument with
        | some a => take reader a rest
        | none =>
          match a.positional argument with
          | .ok a => take reader a rest
          | .error e => .error e

/-- What a list of arguments asks for. -/
def parse (reader : TextReader) : List String → Except UsageError Request
  | [] => .error .noArguments
  | arguments => take reader {} arguments

/-- The options of settings once the arguments are put before them. -/
def override (a : Arguments) (o : Options) : Options where
  outDir := a.outDir.getD o.outDir
  indentUnit := a.indentUnit.getD o.indentUnit
  fileSuffix := a.fileSuffix.getD o.fileSuffix
  headerLines := o.headerLines
  policy := {
    dryRun := o.policy.dryRun || a.dryRun
    noOverwrite := o.policy.noOverwrite || a.noOverwrite
    fileMode := o.policy.fileMode }

end Arguments

/-- What a run of the program leaves: its exit status and the texts that it prints. -/
structure RunResult where
  exitCode : UInt32
  output : String := ""
  errors : String := ""
  /-- Whether the modules were generated, so that `errors` ends with the summary. -/
  finished : Bool := false
  deriving DecidableEq, Repr

namespace RunResult

/-- A run that ends with a message. -/
def failure (message : String) (diagnostics : Diagnostics) : RunResult where
  exitCode := 1
  errors := message ++ "\n" ++ diagnostics.render

/-- A run whose arguments are refused. -/
def refused (e : UsageError) : RunResult where
  exitCode := 1
  errors := e.message

/-- What was done, in words. -/
def summary (schemaFile outputRoot : String) (options : Options) (files : Nat) : String :=
  "Run summary:\n" ++
  "  schema: " ++ schemaFile ++ "\n" ++
  "  output root: " ++ outputRoot ++ "\n" ++
  "  files " ++ (if options.policy.dryRun then "planned" else "generated") ++ ": " ++
    toString files ++ "\n"

/-- The lines for outputs. -/
def planLines (recorded : List String) : String :=
  String.join (recorded.map (· ++ "\n"))

end RunResult

namespace CommandLine

variable {m : Type → Type} [Monad m] [FileSystem m]

/-- Generates the modules of a schema file under given options. The summary shows the output
directory by its path from the root of the file system, which it always has while the directory that
relative paths are taken from stays. -/
def generate (reader : TextReader) (schemaFile : String) (options : Options)
    (diagnostics : Diagnostics) : m RunResult := do
  match ← Schema.ofFile (m := m) reader schemaFile with
  | .error e => return .failure e.message diagnostics
  | .ok schema =>
    let emission ← schema.emit (m := m) options diagnostics
    match emission.result with
    | .error e => return .failure e.message emission.diagnostics
    | .ok _ =>
      let root := DiskPath.join (← FileSystem.currentDirectory) options.outDir
      return {
        exitCode := 0
        output := if options.policy.dryRun then RunResult.planLines emission.recorded else ""
        errors := emission.diagnostics.render ++
          RunResult.summary schemaFile root options emission.recorded.length
        finished := true }

/-- Generates what arguments ask for. -/
def execute (reader : TextReader) (a : Arguments) : m RunResult := do
  let loaded ←
    if a.settingsFile = "" then pure ⟨.ok (), {}, []⟩
    else Settings.applyFile reader a.settingsFile {} []
  match loaded.result with
  | .error e => return .failure e.message loaded.diagnostics
  | .ok _ =>
    let options := a.override loaded.options
    if options.outDir = "" then return .refused .noOutDir
    else generate reader a.schemaFile options loaded.diagnostics

/-- Runs the program on its arguments. -/
def run (reader : TextReader) (arguments : List String) : m RunResult :=
  match Arguments.parse reader arguments with
  | .error e => return .refused e
  | .ok .help => return { exitCode := 0, errors := Arguments.help }
  | .ok (.generate a) => execute reader a

end CommandLine

end PklBindings
