import FlowScript.Color
import FlowScript.Source.Span

/-!
# Steps

The steps view is a forest: every step shows a statement, a part of one, or why a statement is invalid. `Step.at?`
addresses a step by the way to it, `Step.walk` lists a step and everything below it.
-/

namespace FlowScript

/-- What a step shows. -/
inductive StepKind
  | declaration | ret | expression | call | condition | loop | errorHandling
  /-- A branch, body or handler of a step above. -/
  | block
  | unknown
  /-- An invalid statement. -/
  | error
deriving Repr, DecidableEq, Inhabited

def StepKind.name : StepKind → String
  | declaration => "variable"
  | ret => "return"
  | expression => "expression"
  | call => "call"
  | condition => "condition"
  | loop => "loop"
  | errorHandling => "error-handling"
  | block => "block"
  | unknown => "unknown"
  | error => "error"

/-- A step without the steps below it. -/
structure StepLabel where
  kind : StepKind
  title : String
  depth : Nat
  color : Color
  summary : Option String := none
  /-- The outline of the body of a condition or loop. -/
  detail : Option String := none
  /-- Why the statement is invalid. -/
  message : Option String := none
  collapsible : Bool := false
  defaultCollapsed : Bool := false
  important : Bool := false
  /-- The source of the statement; a part of a statement has none. -/
  span : Option Span := none
deriving Repr, DecidableEq, Inhabited

/-- A step with the steps below it. -/
inductive Step
  | mk (label : StepLabel) (children : List Step)
deriving Inhabited

namespace Step

def label : Step → StepLabel | mk label _ => label
def children : Step → List Step | mk _ children => children

/-- A step with nothing below it. -/
def leaf (label : StepLabel) : Step := ⟨label, []⟩

/-- A step that can be collapsed, and is at first unless it is at the top. -/
def container (label : StepLabel) (children : List Step) : Step :=
  ⟨{ label with collapsible := true, defaultCollapsed := decide (label.depth > 0) }, children⟩

/-- The step at the end of a way; every index says which child is next. -/
def at? : List Step → (way : List Nat) → Option Step
  | _, [] => none
  | steps, i :: way =>
    match steps[i]? with
    | none => none
    | some step => if way.isEmpty then some step else at? step.children way

mutual

/-- A step and everything below it, parents before children. -/
def walk : Step → List Step
  | mk label children => mk label children :: walkAll children

/-- Some steps and everything below them. -/
def walkAll : List Step → List Step
  | [] => []
  | s :: ss => s.walk ++ walkAll ss

end

theorem walkAll_eq_flatMap (steps : List Step) : walkAll steps = steps.flatMap walk := by
  induction steps with
  | nil => rw [walkAll, List.flatMap_nil]
  | cons s ss ih => rw [walkAll, ih, List.flatMap_cons]

end Step
end FlowScript
