import FlowScript.Actions.Action
import FlowScript.Actions.Group
import FlowScript.Explain.Details
import FlowScript.Text.OneLine

/-!
# The actions view

One action for each group of statements.
-/

namespace FlowScript

namespace Explainer

/-- An action with its details, and a fallback for its line when there are none. -/
def action (x : Explainer) (kind : ActionKind) (importance : Importance) (title description : Message)
    (names : Option (List String)) (places : List Nat) (details : List String) : Worded Action := do
  let title ← x.say title
  let description ← x.say description
  let readable ← if details.isEmpty then x.label kind.readableKey else pure (Text.joinTexts details " → ")
  return { kind, title, description, readable, statements := places, importance, names, details }

/-- Title and description of a statement that branches or repeats. -/
def controlFlowMessages (x : Explainer) : Stmt → Worded (Message × Message)
  | .ifElse test _ _ _ => do
    let condition ← x.condition test
    return (.plain "actions.if_statement", ⟨"actions.if_description", [("condition", orEmpty condition)]⟩)
  | .for .. => return (.plain "actions.for_loop", .plain "actions.for_description")
  | .while test _ _ | .doWhile _ test _ => do
    let condition ← x.condition test
    return (.plain "actions.while_loop", ⟨"actions.while_description", [("condition", orEmpty condition)]⟩)
  | .forEach .. => return (.plain "actions.for_of_loop", .plain "actions.for_of_description")
  | _ => return (.plain ActionKind.controlFlow.titleKey, .plain ActionKind.controlFlow.descriptionKey)

/-- What stands for the details of a statement that branches or repeats when there are none. -/
def controlFlowDetails (x : Explainer) (details : List String) : Worded (List String) :=
  if details.isEmpty then do
    let check ← x.label "actions.check_condition"
    let execute ← x.label "actions.execute_action"
    return [check, execute]
  else pure details

/-- The description of statements that hit a keyword; a navigation tells the first string in their code. -/
def keywordDescription (kind : ActionKind) (body : List Stmt) : Message :=
  match kind with
  | .navigation =>
    match Excerpt.stringLiteral? (codeOf body) with
    | some url => ⟨"actions.navigation_with_url", [("url", url)]⟩
    | none => .plain kind.descriptionKey
  | _ => .plain kind.descriptionKey

/-- The action of a group that starts at a place. -/
def actionOf (x : Explainer) (place : Nat) (g : ActionGroup) : Worded Action := do
  let places := List.range' place g.statements.length
  let details ← x.detailsOfList g.statements
  match g.form with
  | .ret =>
    x.action .ret .high (.plain ActionKind.ret.titleKey) (.plain ActionKind.ret.descriptionKey) none places details
  | .controlFlow => do
    let (title, description) ← x.controlFlowMessages g.first
    let details ← x.controlFlowDetails details
    x.action .controlFlow .high title description none places details
  | .joint kind name =>
    x.action kind .high (.plain kind.titleKey) (keywordDescription kind g.statements) (some [name]) places details
  | .keyword kind =>
    x.action kind kind.standaloneImportance (.plain kind.titleKey) (keywordDescription kind g.statements) none places
      details
  | .computation (some name) =>
    x.action .computation .low ⟨"actions.prepare_variable", [("name", name)]⟩
      ⟨"actions.prepare_description", [("name", name)]⟩ (some [name]) places details
  | .computation none =>
    x.action .computation .low (.plain ActionKind.computation.titleKey)
      (.plain ActionKind.computation.descriptionKey) none places details

/-- The actions of groups that follow one another from a place on. -/
def actionsFrom (x : Explainer) (place : Nat) : List ActionGroup → Worded (List Action)
  | [] => pure []
  | g :: gs => do
    let first ← x.actionOf place g
    let rest ← x.actionsFrom (place + g.statements.length) gs
    return first :: rest

/-- The actions of statements. -/
def actions (x : Explainer) (body : List Stmt) : Worded (List Action) := x.actionsFrom 0 (ActionGroup.ofStmts 0 body)

end Explainer

/-- The actions view of statements. -/
def actionsOf (options : ExplainOptions) (localizer : Localizer) (body : List Stmt) : List Action :=
  (Explainer.actions ⟨options, localizer⟩ body).value

/-- Actions as numbered paragraphs. -/
def listingOf (actions : List Action) : String :=
  Text.joinLines ((actions.zipIdx 1).flatMap fun (a, number) => a.lines number)

end FlowScript
