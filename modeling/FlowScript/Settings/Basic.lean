import FlowScript.Analysis.Options
import FlowScript.Settings.Value
import FlowScript.Toml.Value

/-!
# Settings

What a user may set: the options of analyses, a catalog of messages, and how much is logged.
-/

namespace FlowScript

/-- Everything that may be set. -/
structure Settings where
  options : AnalysisOptions
  /-- A file with messages that replace the English ones. -/
  catalogPath : Option String
  logLevel : String
deriving Repr, DecidableEq

/-- Values that no analysis can work with. -/
inductive InvalidSetting
  | narrowSummary (width : Nat)
  | noDepth
deriving Repr, DecidableEq

def InvalidSetting.message : InvalidSetting → String
  | narrowSummary width => "render.summary_max_len must be at least 2, got " ++ toString width
  | noDepth => "render.max_depth must be greater than 0"

/-- Why settings were not loaded. -/
inductive SettingsError
  | notFound (path : String)
  /-- A settings file is malformed, or a value has the wrong type. -/
  | malformed
  | invalid (cause : InvalidSetting)
deriving Repr, DecidableEq

def SettingsError.message : SettingsError → String
  | notFound path => "configuration file not found: " ++ path
  | malformed => "failed to load configuration"
  | invalid cause => "invalid configuration: " ++ cause.message

namespace Setting

mutual

/-- The value that a TOML value stands for; dates and times are text. -/
def ofToml : Toml.Value → Setting
  | .str text => .str text
  | .int n => .int n
  | .float literal => .decimal ((Double.ofText? literal).getD .nan)
  | .bool b => .bool b
  | .dateTime text => .str text
  | .array items => .list (ofTomlItems items)
  | .table entries => .table (ofTomlEntries entries)

def ofTomlItems : List Toml.Value → List Setting
  | [] => []
  | v :: vs => ofToml v :: ofTomlItems vs

def ofTomlEntries : List (String × Toml.Value) → List (String × Setting)
  | [] => []
  | (name, v) :: es => (name, ofToml v) :: ofTomlEntries es

end

/-! ## Options as settings -/

def ofSize (n : Nat) : Setting := .int n

def ofSteps (o : StepOptions) : Setting :=
  .table [("summary_max_len", ofSize o.summaryWidth), ("callee_max_len", ofSize o.calleeWidth),
    ("catch_label_max_len", ofSize o.catchWidth), ("max_depth", ofSize o.maxDepth),
    ("important_only", .bool o.importantOnly)]

def steps? (v : Setting) : Option StepOptions := do
  let es ← v.record? StepOptions.record.defaulted
  return {
    summaryWidth := ← member? es "summary_max_len" size? StepOptions.standard.summaryWidth
    calleeWidth := ← member? es "callee_max_len" size? StepOptions.standard.calleeWidth
    catchWidth := ← member? es "catch_label_max_len" size? StepOptions.standard.catchWidth
    maxDepth := ← member? es "max_depth" size? StepOptions.standard.maxDepth
    importantOnly := ← member? es "important_only" bool? StepOptions.standard.importantOnly }

def ofExplain (o : ExplainOptions) : Setting :=
  .table [("inline_code_max_len", ofSize o.inlineCodeWidth), ("return_value_max_len", ofSize o.returnValueWidth)]

def explain? (v : Setting) : Option ExplainOptions := do
  let es ← v.record? ExplainOptions.record.defaulted
  return {
    inlineCodeWidth := ← member? es "inline_code_max_len" size? ExplainOptions.standard.inlineCodeWidth
    returnValueWidth := ← member? es "return_value_max_len" size? ExplainOptions.standard.returnValueWidth }

end Setting

namespace Settings

/-- The settings that hold where nothing else is said. -/
def standard : Settings := ⟨.standard, none, "warn"⟩

instance : Inhabited Settings := ⟨standard⟩

/-- Settings as a layer. -/
def toLayer (s : Settings) : List (String × Setting) :=
  [("render", .ofSteps s.options.steps), ("explain", .ofExplain s.options.explain),
    ("locale", .table [("path", (s.catalogPath.map Setting.str).getD .missing)]),
    ("logging", .table [("level", .str s.logLevel)])]

/-- Reads settings; what is missing has its standard value. -/
def ofSetting? (v : Setting) : Option Settings := do
  let es := v.entries
  let steps ← Setting.member? es "render" Setting.steps? .standard
  let explain ← Setting.member? es "explain" Setting.explain? .standard
  let catalogPath ← Setting.member? es "locale" (fun v => do
    Setting.member? (← v.record? ["path"]) "path" (Setting.optional? Setting.text?) standard.catalogPath) none
  let logLevel ← Setting.member? es "logging" (fun v => do
    Setting.member? (← v.record? ["level"]) "level" Setting.text? standard.logLevel) standard.logLevel
  return { options := ⟨steps, explain⟩, catalogPath, logLevel }

/-- What is wrong with settings; the width of summaries is looked at first. -/
def fault? (s : Settings) : Option InvalidSetting :=
  if s.options.steps.summaryWidth < 2 then some (.narrowSummary s.options.steps.summaryWidth)
  else if s.options.steps.maxDepth = 0 then some .noDepth
  else none

def toJson (s : Settings) : Json :=
  .obj [("render", s.options.steps.toJson), ("explain", s.options.explain.toJson),
    ("locale", .obj [("path", Json.ofOption .str s.catalogPath)]), ("logging", .obj [("level", .str s.logLevel)])]

end Settings
end FlowScript
