import FlowScript.Analysis.Basic
import FlowScript.CommandLine.Arguments
import FlowScript.Json.Pretty
import FlowScript.Settings.Load

/-!
# Running a command line

A request is answered in this order: settings, catalog, script, view. The first failure ends it.
-/

namespace FlowScript.CommandLine

/-- Why a request was not answered. -/
inductive Failure
  | settings (cause : SettingsError)
  | catalog (cause : CatalogFailure)
  | unreadable (file : String) (cause : FileError)
  | unparsed (file : String) (cause : ParseError)

/-- The file that stands for standard input. -/
def inputMark : String := "-"

namespace Failure

/-- The failure with its causes. -/
def message : Failure → String
  | settings cause => "Failed to load configuration: " ++ cause.message
  | catalog cause => "Failed to load locale catalog: " ++ cause.message
  | unreadable file cause =>
    "Failed to read " ++ (if file = inputMark then "script from stdin" else file) ++ ": " ++ cause.message
  | unparsed file cause => "Failed to analyze " ++ file ++ ": " ++ cause.text

end Failure

/-- What a run leaves behind. -/
structure Outcome where
  success : Bool
  output : String
  /-- What is said beside the output. -/
  complaint : String
  failure : Option Failure

namespace Outcome

/-- Some output and success. -/
def shown (output : String) : Outcome := ⟨true, output, "", none⟩

/-- A failure and no output. -/
def failed (failure : Failure) : Outcome := ⟨false, "", "", some failure⟩

end Outcome

/-- A value as output. -/
def jsonOutput (v : Json) : String := v.pretty ++ "\n"

/-- What is said of a script, which may be right or not. -/
def report (request : Request) (result : Except ParseError Analysis) : Outcome :=
  match result, request.format with
  | .ok a, .text =>
    .shown (if a.diagnostics.isEmpty then request.file ++ ": no issues found\n" else Diagnostic.listing a.diagnostics)
  | .ok a, .json => .shown (jsonOutput (.arr (a.diagnostics.map Diagnostic.toJson)))
  | .error e, .text => ⟨false, "", request.file ++ ": " ++ e.text ++ "\n", none⟩
  | .error e, .json => ⟨false, jsonOutput e.toJson, "", none⟩

/-- The analysis of a script in one of two forms. -/
def answerBy (request : Request) (text : Analysis → String) (json : Analysis → Json)
    (result : Except ParseError Analysis) : Outcome :=
  match result, request.format with
  | .ok a, .text => .shown (text a)
  | .ok a, .json => .shown (jsonOutput (json a))
  | .error e, _ => .failed (.unparsed request.file e)

/-- A script without its types; this view never fails. -/
def answerRaw (format : Format) (source : String) : Outcome :=
  match format with
  | .text => .shown (eraseTypes source)
  | .json => .shown (jsonOutput (.str (eraseTypes source)))

/-- The view of a script that a request asks for, with settings and a catalog. -/
def answer (request : Request) (settings : Settings) (catalog : Catalog) (source : String) : Outcome :=
  match request.view with
  | .raw => answerRaw request.format source
  | .check => report request (analyze source settings.options catalog.localizer).value
  | .steps =>
    answerBy request (fun a => outlineOf a.steps) (fun a => .arr (stepsToJson a.steps))
      (analyze source settings.options catalog.localizer).value
  | .actions =>
    answerBy request (fun a => listingOf a.actions) (fun a => .arr (a.actions.map Action.toJson))
      (analyze source settings.options catalog.localizer).value
  | .analysis =>
    answerBy request Analysis.text Analysis.toJson (analyze source settings.options catalog.localizer).value

section
variable {m : Type → Type} [Monad m]

/-- The script that a request names. -/
def sourceOf (world : Surroundings m) (request : Request) : m (Except FileError String) :=
  if request.file = inputMark then world.input else world.read request.file

/-- Answers a request. -/
def run (world : Surroundings m) (request : Request) : m Outcome := do
  let wish := if request.importantOnly then some true else none
  match ← Settings.load world request.settingsPath wish with
  | .error e => return .failed (.settings e)
  | .ok settings =>
    match ← settings.catalog world with
    | .error e => return .failed (.catalog e)
    | .ok catalog =>
      match ← sourceOf world request with
      | .error e => return .failed (.unreadable request.file e)
      | .ok source => return answer request settings catalog source

end
end FlowScript.CommandLine
