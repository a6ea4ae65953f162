import FlowScript.Steps.Step
import FlowScript.Text.OneLine

/-!
# Steps as an indented outline

One line for each step, followed by lines for its message and its detail; two spaces of indentation for each level of
depth.
-/

namespace FlowScript

/-- The indentation at a depth. -/
def indentation (depth : Nat) : String := String.ofList (List.replicate (2 * depth) ' ')

/-- The lines of a step without the steps below it. -/
def StepLabel.lines (l : StepLabel) : List String :=
  let start := indentation l.depth
  let summary := match l.summary with | none => "" | some summary => ": " ++ summary
  let message := match l.message with | none => [] | some message => [start ++ "  ! " ++ message]
  let detail := match l.detail with | none => [] | some detail => [start ++ "  > " ++ detail]
  (start ++ l.title ++ summary ++ (if l.important then " [important]" else "")) :: (message ++ detail)

/-- The outline of steps and everything below them. -/
def outlineOf (steps : List Step) : String :=
  Text.joinLines ((Step.walkAll steps).flatMap (·.label.lines))

end FlowScript
