import FlowScript.Actions.Basic
import FlowScript.Analysis.Options
import FlowScript.Diagnostics.Basic
import FlowScript.Digest.Sha256
import FlowScript.Erasure.Basic
import FlowScript.Steps.Basic
import FlowScript.Steps.Json
import FlowScript.Steps.Outline

/-!
# Analyses

An analysis is every view of a script at once: its steps, its actions, its code without types, and what is wrong with
it. It fails when the script is not read.
-/

namespace FlowScript

namespace ParseError

/-- The error and the place of it; lines and columns count from one. -/
def text (e : ParseError) : String :=
  match e.span? with
  | none => e.message
  | some span =>
    e.message ++ " (line " ++ toString (span.start.line + 1) ++ ", col " ++ toString (span.start.column + 1) ++ ")"

def toJson (e : ParseError) : Json :=
  .obj (("message", .str e.message) :: Json.memberOf "location" Span.toJson e.span?)

end ParseError

/-- Every view of a script. -/
structure Analysis where
  /-- The hash of the source, which tells sources apart. -/
  revision : String
  steps : List Step
  actions : List Action
  /-- The source without its types. -/
  raw : String
  diagnostics : List Diagnostic

namespace Analysis

def toJson (a : Analysis) : Json :=
  .obj [("revision", .str a.revision), ("steps", .arr (stepsToJson a.steps)),
    ("actions", .arr (a.actions.map Action.toJson)), ("raw", .str a.raw),
    ("diagnostics", .arr (a.diagnostics.map Diagnostic.toJson))]

/-- The views one after another, except the code; diagnostics only if there are any. -/
def text (a : Analysis) : String :=
  "revision " ++ a.revision ++ "\n\n== Steps ==\n" ++ outlineOf a.steps ++ "\n== Actions ==\n" ++ listingOf a.actions
    ++ if a.diagnostics.isEmpty then "" else "\n== Diagnostics ==\n" ++ Diagnostic.listing a.diagnostics

end Analysis

/-- The analysis of a source. -/
def analyze (source : String) (options : AnalysisOptions) (localizer : Localizer) :
    Worded (Except ParseError Analysis) :=
  match parseWorkflow source with
  | .error e => pure (.error e)
  | .ok workflow => do
    let steps ← StepView.steps ⟨options.steps, localizer⟩ 0 workflow.body
    let actions ← Explainer.actions ⟨options.explain, localizer⟩ workflow.body
    return .ok
      { revision := Sha256.ofText source
        steps, actions
        raw := eraseTypes source
        diagnostics := diagnose workflow.body }

end FlowScript
