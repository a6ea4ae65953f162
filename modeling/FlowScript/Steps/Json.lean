import FlowScript.Ast.Json
import FlowScript.Steps.Step

/-!
# Steps as JSON
-/

namespace FlowScript

namespace StepLabel

/-- The members of a step that come before the steps below it. -/
def jsonBefore (l : StepLabel) : List (String × Json) :=
  [("kind", .str l.kind.name), ("title", .str l.title)] ++ Json.memberOf "summary" .str l.summary
    ++ Json.memberOf "detail" .str l.detail ++ Json.memberOf "message" .str l.message

/-- The members of a step that come after the steps below it. -/
def jsonAfter (l : StepLabel) : List (String × Json) :=
  [("depth", .nat l.depth), ("collapsible", .bool l.collapsible), ("default_collapsed", .bool l.defaultCollapsed),
    ("color", l.color.toJson), ("important", .bool l.important)] ++ Json.memberOf "span" Span.toJson l.span

end StepLabel

mutual

/-- A step with everything below it. -/
def Step.toJson : Step → Json
  | .mk label children =>
    .obj (label.jsonBefore ++ (if children.isEmpty then [] else [("children", .arr (stepsToJson children))])
      ++ label.jsonAfter)

def stepsToJson : List Step → List Json
  | [] => []
  | s :: ss => s.toJson :: stepsToJson ss

end

end FlowScript
