import FlowScript.Explain.Options
import FlowScript.Steps.Options

/-!
# Options of an analysis
-/

namespace FlowScript

/-- What the views of a script depend on beside the script. -/
structure AnalysisOptions where
  steps : StepOptions
  explain : ExplainOptions
deriving Repr, DecidableEq

namespace AnalysisOptions

/-- The options that hold where nothing else is said. -/
def standard : AnalysisOptions := ⟨.standard, .standard⟩

instance : Inhabited AnalysisOptions := ⟨standard⟩

def toJson (o : AnalysisOptions) : Json := .obj [("render", o.steps.toJson), ("explain", o.explain.toJson)]

/-- The members of options. -/
def record : Json.Record := ⟨[], ["render", "explain"]⟩

/-- Reads options; what is missing has its standard value. -/
def ofJson? (v : Json) : Option AnalysisOptions := do
  let v ← v.record? record
  return {
    steps := ← v.default? "render" StepOptions.ofJson? .standard
    explain := ← v.default? "explain" ExplainOptions.ofJson? .standard }

end AnalysisOptions
end FlowScript
