import FlowScript.Steps.Fault
import FlowScript.Steps.Importance
import FlowScript.Steps.Options
import FlowScript.Steps.Step
import FlowScript.Text.OneLine

/-!
# The steps view

One step per statement. Blocks that stand alone are spliced into the list around them; branches, bodies and handlers
become sections of the step they belong to. An invalid statement becomes an error step and leaves the others alone;
a list beyond the depth limit becomes one error step.
-/

namespace FlowScript

/-- The statements of a branch or body; a single statement stands alone. -/
def Stmt.asBody : Stmt → List Stmt
  | .block body _ => body
  | s => [s]

/-- The code of a statement without its semicolon. -/
def Stmt.bareCode (s : Stmt) : String := String.ofList (Text.dropLastIf ';' s.renderCompact.toList)

/-- What the steps of statements depend on. -/
structure StepView where
  options : StepOptions
  localizer : Localizer

namespace StepView

/-- The text of a message. -/
def say (v : StepView) (m : Message) : Worded String := m.worded v.localizer

/-- The text of a message without arguments. -/
def label (v : StepView) (key : String) : Worded String := v.say (.plain key)

/-- Code cut to the width of summaries. -/
def summary (v : StepView) (code : String) : Option String := some (Text.oneLine code v.options.summaryWidth)

/-! ## Outlines -/

/-- How many statements an outline lists. -/
def outlineLimit : Nat := 3

/-- The width of a statement in an outline. -/
def outlineWidth : Nat := 40

/-- What a call is called in an outline, judged by its callee. -/
def briefCall? (callee : String) : Option String :=
  if Text.containsAny callee ["goto", "navigate"] then some "steps.brief_navigate"
  else if Text.contains callee "click" then some "steps.brief_click"
  else if Text.containsAny callee ["type", "fill"] then some "steps.brief_type"
  else if Text.containsAny callee ["textContent", "innerHTML"] then some "steps.brief_read"
  else none

/-- The first name that a declaration binds, if that is all its first part binds. -/
def briefName : List Declarator → String
  | .mk (.ident name _) _ _ :: _ => name
  | _ => ""

/-- A statement in a few words. -/
def brief (v : StepView) : Stmt → Worded String
  | .expr e _ =>
    match e.unwrapAwait with
    | .call callee _ _ _ =>
      match briefCall? callee.renderCompact with
      | some key => v.label key
      | none => pure (Text.oneLine callee.renderCompact outlineWidth)
    | _ => pure (Text.oneLine e.renderCompact outlineWidth)
  | .varDecl _ declarations _ => do
    let text ← v.say ⟨"steps.brief_variable", [("name", briefName declarations)]⟩
    return String.ofList (Text.trimEnd text.toList)
  | .ret .. => v.label "steps.brief_return"
  | s => pure (Text.oneLine s.renderCompact outlineWidth)

/-- Each statement in a few words. -/
def briefs (v : StepView) : List Stmt → Worded (List String)
  | [] => pure []
  | s :: ss => do
    let first ← v.brief s
    let rest ← v.briefs ss
    return first :: rest

/-- The first statements of a body in a few words, and how many more there are. -/
def outline (v : StepView) (body : List Stmt) : Worded String :=
  if body.isEmpty then v.label "steps.no_processing"
  else do
    let parts ← v.briefs (body.take outlineLimit)
    if body.length > outlineLimit then
      let more ← v.say ⟨"steps.more", [("count", toString (body.length - outlineLimit))]⟩
      return " → ".intercalate (parts ++ [more])
    else return " → ".intercalate parts

/-! ## Steps -/

/-- The step in place of what is not shown. -/
def faulty (v : StepView) (fault : StepFault) (span : Span) (depth : Nat) : Worded (List Step) := do
  let title ← v.say fault.title
  let message ← v.say fault.message
  return [.leaf { kind := .error, title, depth, color := .red, message := some message, span := some span }]

/-- The steps of a list, unless it is too deep. -/
@[macro_inline] def bounded (v : StepView) (depth : Nat) (body : List Stmt) (steps : Worded (List Step)) :
    Worded (List Step) :=
  if depth > v.options.maxDepth then
    match body.head?, body.getLast? with
    | some first, some last => v.faulty (.tooDeep v.options.maxDepth) (first.span.merge last.span) depth
    | _, _ => pure []
  else steps

/-- The steps of a statement, unless only important ones are shown and this is none. -/
@[macro_inline] def shown (v : StepView) (s : Stmt) (steps : Worded (List Step)) : Worded (List Step) :=
  if v.options.importantOnly && !s.isImportant then pure [] else steps

/-- The steps of a branch or body that is one statement. As a block it is spliced, else it is a list of its own. -/
@[macro_inline] def alone (v : StepView) (depth : Nat) (s : Stmt) (steps : Nat → Worded (List Step)) :
    Worded (List Step) :=
  match s with
  | .block .. => steps depth
  | _ => v.bounded (depth + 1) [s] (v.shown s (steps (depth + 1)))

/-- The section that shows a branch, body or handler of a statement. -/
def part (v : StepView) (label : Message) (depth : Nat) (children : List Step) : Worded Step := do
  let title ← v.say label
  return ⟨{ kind := .block, title, depth := depth + 1, color := .gray }, children⟩

/-- The step of a statement that stands for itself. -/
def simple (v : StepView) (depth : Nat) (s : Stmt) (kind : StepKind) (color : Color) (title : Message) (code : String) :
    Worded (List Step) := do
  let title ← v.say title
  return [.leaf { kind, title, depth, color, summary := v.summary code, span := some s.span }]

/-- The step of an expression. -/
def expression (v : StepView) (depth : Nat) (e : Expr) (s : Stmt) : Worded (List Step) :=
  match e.unwrapAwait with
  | .call callee args _ _ => do
    let name := Text.oneLine callee.renderCompact v.options.calleeWidth
    let important := isImportantCode name
    let title ← v.label (if important then "steps.important_call" else "steps.call")
    return [.leaf
      { kind := .call, title, depth, color := if important then .orange else .teal, important, span := some s.span
        summary := v.summary (name ++ "(…) args=" ++ toString args.length) }]
  | _ => v.simple depth s .expression .cyan (.plain "steps.expression") e.renderCompact

/-- The step of a loop whose body has the given steps. -/
def loop (v : StepView) (depth : Nat) (s body : Stmt) (steps : List Step) : Worded (List Step) := do
  let inside ← v.part (.plain "steps.loop_body") depth steps
  let title ← v.label "steps.loop"
  let detail ← v.outline body.asBody
  return [.container
    { kind := .loop, title, depth, color := .blue, summary := v.summary s.renderLoopHead, detail := some detail
      span := some s.span } [inside]]

/-- The label of a handler. -/
def catchLabel (v : StepView) : Option Pattern → Message
  | some param => ⟨"steps.catch_binding", [("binding", Text.oneLine param.renderCompact v.options.catchWidth)]⟩
  | none => .plain "steps.catch"

/-- The outline of both branches of a condition. -/
def branches (v : StepView) (consequent : Stmt) : Option Stmt → Worded String
  | none => v.outline consequent.asBody
  | some alternate => do
    let yes ← v.outline consequent.asBody
    let no ← v.outline alternate.asBody
    v.say ⟨"steps.then_else", [("then", yes), ("else", no)]⟩

mutual

/-- The steps of one statement at a depth. -/
def stepsOf (v : StepView) (depth : Nat) : Stmt → Worded (List Step)
  | .block body _ => v.bounded (depth + 1) body (v.stepsOfList (depth + 1) body)
  | s@(.varDecl _ declarations span) =>
    match declarations with
    | [] => v.faulty .noDeclarations span depth
    | _ => v.simple depth s .declaration .purple (.plain "steps.variable") s.bareCode
  | s@(.ret ..) => v.simple depth s .ret .green (.plain "steps.return") s.bareCode
  | s@(.expr e _) => v.expression depth e s
  | .ifElse none _ _ span => v.faulty .missingCondition span depth
  | .ifElse (some test) consequent alternate span => do
    let yes ← v.alone (depth + 1) consequent fun d => v.stepsOf d consequent
    let yes ← v.part (.plain "steps.then") depth yes
    let no ← match alternate with
      | none => pure []
      | some alternate => do
        let no ← v.alone (depth + 1) alternate fun d => v.stepsOf d alternate
        let no ← v.part (.plain "steps.else") depth no
        pure [no]
    let title ← v.label "steps.condition"
    let detail ← v.branches consequent alternate
    return [.container
      { kind := .condition, title, depth, color := .amber, detail := some detail, span := some span
        summary := v.summary ("if (" ++ test.renderCompact ++ ")") } (yes :: no)]
  | s@(.for _ _ _ body _) => do v.loop depth s body (← v.alone (depth + 1) body fun d => v.stepsOf d body)
  | s@(.forEach _ _ _ _ body _) => do v.loop depth s body (← v.alone (depth + 1) body fun d => v.stepsOf d body)
  | .while none _ span => v.faulty .missingLoopCondition span depth
  | s@(.while (some _) body _) => do v.loop depth s body (← v.alone (depth + 1) body fun d => v.stepsOf d body)
  | .doWhile _ none span => v.faulty .missingLoopCondition span depth
  | s@(.doWhile body (some _) _) => do v.loop depth s body (← v.alone (depth + 1) body fun d => v.stepsOf d body)
  | .try _ none none span => v.faulty .missingHandler span depth
  | .try block handler finalizer span => do
    let tried ← v.bounded (depth + 2) block (v.stepsOfList (depth + 2) block)
    let tried ← v.part (.plain "steps.try") depth tried
    let caught ← match handler with
      | none => pure []
      | some (.mk param body _) => do
        let caught ← v.bounded (depth + 2) body (v.stepsOfList (depth + 2) body)
        let caught ← v.part (v.catchLabel param) depth caught
        pure [caught]
    let ended ← match finalizer with
      | none => pure []
      | some body => do
        let ended ← v.bounded (depth + 2) body (v.stepsOfList (depth + 2) body)
        let ended ← v.part (.plain "steps.finally") depth ended
        pure [ended]
    let title ← v.label "steps.error_handling"
    let summary :=
      "try" ++ (if handler.isSome then " … catch" else "") ++ (if finalizer.isSome then " … finally" else "")
    return [.container { kind := .errorHandling, title, depth, color := .red, summary, span := some span }
      (tried :: caught ++ ended)]
  | s => v.simple depth s .unknown .pink ⟨"steps.unknown", [("kind", s.kindName)]⟩ s.renderCompact

/-- The steps of statements at a depth, one statement after another. -/
def stepsOfList (v : StepView) (depth : Nat) : List Stmt → Worded (List Step)
  | [] => pure []
  | s :: ss => do
    let first ← v.shown s (v.stepsOf depth s)
    let rest ← v.stepsOfList depth ss
    return first ++ rest

end

/-- The steps of a list of statements that starts at a depth. -/
def steps (v : StepView) (depth : Nat) (body : List Stmt) : Worded (List Step) :=
  v.bounded depth body (v.stepsOfList depth body)

end StepView

/-- The steps view of statements. -/
def stepsOf (options : StepOptions) (localizer : Localizer) (depth : Nat) (body : List Stmt) : List Step :=
  (StepView.steps ⟨options, localizer⟩ depth body).value

end FlowScript
