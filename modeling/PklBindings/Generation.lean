import PklBindings.Diagnostic
import PklBindings.Document
import PklBindings.Options

/-!
# Generation

The documents of a schema: one for each module, in order. No two modules share a namespace or an
output file. A remark is made on every hidden property and on every document.
-/

namespace PklBindings

/-- Generation may fail, and the remarks made up to then are kept. -/
abbrev Reporting (α : Type) := ExceptT GenerationError (StateM Diagnostics) α

/-- What a module has taken for itself. -/
structure Claim where
  space : String
  fileName : String
  moduleName : String
  deriving DecidableEq, Repr

namespace Module

/-- The namespace that a module goes to: that of its module class. -/
def space (m : Module) (bindings : BindingTable) : Except GenerationError String :=
  match m.moduleClass? with
  | none => .error (.noModuleClass m.name)
  | some d =>
    match bindings.find? d.qualifiedName with
    | none => .error (.unboundModule d.location m.name)
    | some binding => .ok binding.space

/-- The claim of a module, unless an earlier one has its namespace or its file. -/
def claim (m : Module) (bindings : BindingTable) (options : Options) (earlier : List Claim) :
    Except GenerationError Claim := do
  let space ← m.space bindings
  let fileName := ModuleName.fileName space options.fileSuffix
  match earlier.find? (·.space = space) with
  | some other => .error (.sharedNamespace other.moduleName m.name space)
  | none =>
    match earlier.find? (·.fileName = fileName) with
    | some other => .error (.sharedFile other.moduleName m.name fileName)
    | none => .ok ⟨space, fileName, m.name⟩

/-- The target that a module is written for. -/
def target (bindings : BindingTable) (options : Options) (space : String) : Target :=
  ⟨space, bindings, options.indentUnit, options.fileSuffix⟩

/-- The header of the document of a module. -/
def header (m : Module) (options : Options) : List String :=
  if options.headerLines.isEmpty then Document.defaultHeader m.name else options.headerLines

/-- A warning for each hidden property. -/
def hiddenWarnings (m : Module) : Diagnostics :=
  m.declarations.flatMap fun d => d.hiddenProperties.map fun p =>
    ⟨.warning, p.location,
      "hidden property '" ++ p.name ++ "' of '" ++ d.qualifiedName ++ "' is not emitted"⟩

/-- The remark on the document of a module, where its module class stands. -/
def generatedNote (m : Module) (document : Document) : Diagnostic :=
  ⟨.note, (m.moduleClass?.map (·.location)).getD {},
    "generated " ++ document.fileName ++ " from module '" ++ m.name ++ "'"⟩

end Module

namespace Schema

/-- Adds remarks. -/
def report (ds : Diagnostics) : Reporting Unit :=
  modify (· ++ ds)

/-- The documents of modules, given the claims of earlier ones. -/
def documentsFrom (bindings : BindingTable) (options : Options) (earlier : List Claim) :
    List Module → Reporting (List Document)
  | [] => pure []
  | m :: ms => do
    let claim ← liftExcept (m.claim bindings options earlier)
    report m.hiddenWarnings
    let document ← liftExcept
      (m.document (Module.target bindings options claim.space) (m.header options))
    report [m.generatedNote document]
    let documents ← documentsFrom bindings options (earlier ++ [claim]) ms
    return document :: documents

/-- The documents of a schema. -/
def generate (schema : Schema) (options : Options) : Reporting (List Document) :=
  if options.fileSuffix = "" then throw .emptySuffix
  else documentsFrom schema.bindings options [] schema.modules

end Schema

end PklBindings
