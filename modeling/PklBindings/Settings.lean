import PklBindings.Diagnostic
import PklBindings.Options
import PklBindings.Text
import PklBindings.TextReader

/-!
# Settings

A settings document is a JSON object that changes options. Its members are applied in a fixed
order, so a document that is refused may have changed the options whose members come before the
refused one. Members that mean nothing are remarked on.
-/

namespace PklBindings

open Json (Members)

/-- The greatest width of an indent unit. -/
def maxIndentWidth : Int := 16

/-- The indent unit of a width in spaces, if there is one. -/
def indentOfWidth? (width : Int) : Option String :=
  if 1 ≤ width ∧ width ≤ maxIndentWidth then some (.ofList (List.replicate width.toNat ' '))
  else none

/-- What is said of a width that has no indent unit. -/
def indentWidthMessage (width : Int) : String :=
  "indent width must be between 1 and " ++ toString maxIndentWidth ++ ", got " ++ toString width

/-- What a setting has to be. -/
inductive SettingRule where
  | text
  | nonEmptyText
  | flag
  | lines
  | indentWidth
  | indent
  deriving DecidableEq, Repr

/-- The rule in words. -/
def SettingRule.description : SettingRule → String
  | text => "a string"
  | nonEmptyText => "a non-empty string"
  | flag => "a boolean"
  | lines => "an array of strings"
  | indentWidth => "between 1 and 16 spaces"
  | indent => "a width or a non-empty string of spaces and tabs"

/-- Why a settings document is refused. -/
inductive SettingsFault where
  | notObject
  /-- A member breaks its rule. -/
  | broken (name : String) (rule : SettingRule)
  deriving DecidableEq, Repr

/-- The fault in words, behind the name of the document. -/
def SettingsFault.message (source : String) : SettingsFault → String
  | notObject => Text.untilNul source ++ ": settings must be a JSON object"
  | broken name rule =>
    Text.untilNul source ++ ": setting '" ++ name ++ "' must be " ++ rule.description

namespace Settings

/-- Applying settings changes options, also when it fails in the end. -/
abbrev Applying (α : Type) := ExceptT SettingsFault (StateM Options) α

/-- The members that mean something. -/
def knownNames : List String :=
  ["indent", "fileSuffix", "outputDirectory", "dryRun", "noOverwrite", "headerLines"]

/-- The members that mean nothing, in order. -/
def unknownNames (members : Members) : List String :=
  ((members.map (·.1)).filter (!knownNames.contains ·)).mergeSort fun a b => a ≤ b

/-- A warning for each member that means nothing, at the start of the document. -/
def warnings (source : String) (json : Json) : Diagnostics :=
  match json.members? with
  | none => []
  | some members => (unknownNames members).map fun name =>
    ⟨.warning, { file := source }, "ignoring unknown setting '" ++ name ++ "'"⟩

/-- Whether a text may stand for a level of indentation. -/
def isIndent (s : String) : Bool :=
  s ≠ "" && s.toList.all fun c => c = ' ' || c = '\t'

/-- The indent unit that a value stands for. -/
def indentUnit (json : Json) : Except SettingRule String :=
  match json.integer? with
  | some width =>
    match indentOfWidth? width with
    | some unit => .ok unit
    | none => .error .indentWidth
  | none =>
    match json.string? with
    | some s => if isIndent s then .ok s else .error .indent
    | none => .error .indent

/-- The text that a value stands for. -/
def text (json : Json) : Except SettingRule String :=
  match json.string? with
  | some s => .ok s
  | none => .error .text

/-- The truth value that a value stands for. -/
def flag (json : Json) : Except SettingRule Bool :=
  match json.bool? with
  | some b => .ok b
  | none => .error .flag

/-- The lines that a value stands for. -/
def lines (json : Json) : Except SettingRule (List String) :=
  match json.items?.bind fun items => items.mapM Json.string? with
  | some lines => .ok lines
  | none => .error .lines

/-- Applies one member, if the document has it: `read` gives its value and `store` puts it into
the options. -/
def applyMember (members : Members) (name : String) (read : Json → Except SettingRule α)
    (store : α → Options → Options) : Applying Unit :=
  match members.get? name with
  | none => pure ()
  | some json =>
    match read json with
    | .ok value => modify (store value)
    | .error rule => throw (.broken name rule)

/-- Refuses options without a suffix. -/
def requireSuffix : Applying Unit := do
  if (← get).fileSuffix = "" then throw (.broken "fileSuffix" .nonEmptyText)

/-- Applies a settings document. -/
def apply (json : Json) : Applying Unit :=
  match json.members? with
  | none => throw .notObject
  | some members => do
    applyMember members "indent" indentUnit fun s o => { o with indentUnit := s }
    applyMember members "fileSuffix" text fun s o => { o with fileSuffix := s }
    requireSuffix
    applyMember members "outputDirectory" text fun s o => { o with outDir := s }
    applyMember members "dryRun" flag fun b o => { o with policy.dryRun := b }
    applyMember members "noOverwrite" flag fun b o => { o with policy.noOverwrite := b }
    applyMember members "headerLines" lines fun ls o => { o with headerLines := ls }

end Settings

/-- Why settings of a file are not applied. -/
inductive SettingsError where
  /-- The file cannot be read. -/
  | unreadable (path : String)
  /-- The text is no JSON, and this is what its reader says of it. -/
  | malformed (source reason : String)
  /-- The document is refused. -/
  | invalid (source : String) (fault : SettingsFault)
  deriving DecidableEq, Repr

/-- The reason in words. -/
def SettingsError.message : SettingsError → String
  | unreadable path => "failed to read settings file " ++ Text.untilNul path
  | malformed source reason =>
    Text.untilNul source ++ ": invalid JSON: " ++ Text.untilNul reason
  | invalid source fault => fault.message source

/-- What is left after settings were applied: the options as they are then, the remarks, and
whether the settings were refused. -/
structure SettingsOutcome where
  result : Except SettingsError Unit
  options : Options
  diagnostics : Diagnostics

namespace Settings

/-- Applies the document that is called `source`. -/
def applyDocument (source : String) (json : Json) (options : Options)
    (diagnostics : Diagnostics) : SettingsOutcome :=
  let (result, options) := (apply json).run.run options
  ⟨result.mapError (.invalid source), options, diagnostics ++ warnings source json⟩

/-- Applies a text. -/
def applyText (reader : TextReader) (source text : String) (options : Options)
    (diagnostics : Diagnostics) : SettingsOutcome :=
  match reader.json text with
  | .error reason => ⟨.error (.malformed source reason), options, diagnostics⟩
  | .ok json => applyDocument source json options diagnostics

end Settings

end PklBindings
