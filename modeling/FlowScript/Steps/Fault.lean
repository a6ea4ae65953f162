import FlowScript.Message.Basic

/-!
# Invalid statements
-/

namespace FlowScript

/-- Why a statement, or a list of statements, is not shown. -/
inductive StepFault
  | noDeclarations
  | missingCondition
  | missingLoopCondition
  /-- A `try` with neither handler nor finalizer. -/
  | missingHandler
  /-- The list is deeper than the limit. -/
  | tooDeep (limit : Nat)
deriving Repr, DecidableEq

namespace StepFault

def title : StepFault → Message
  | noDeclarations => .plain "steps.variable_invalid"
  | missingCondition => .plain "steps.condition_invalid"
  | missingLoopCondition => .plain "steps.loop_invalid"
  | missingHandler => .plain "steps.try_invalid"
  | tooDeep _ => .plain "steps.too_deep"

def message : StepFault → Message
  | noDeclarations => .plain "steps.no_declarations"
  | missingCondition => .plain "steps.missing_test"
  | missingLoopCondition => .plain "steps.missing_loop_test"
  | missingHandler => .plain "steps.missing_handler"
  | tooDeep limit => ⟨"steps.too_deep_message", [("limit", toString limit)]⟩

end StepFault
end FlowScript
