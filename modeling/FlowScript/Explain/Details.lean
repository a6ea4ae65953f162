import FlowScript.Explain.Sentence

/-!
# Details of a statement

A compound statement is explained by a line for each of its heads, with the lines of its bodies under them. In a body,
the first line of a statement has a mark before it and its other lines are indented as far.
-/

namespace FlowScript

/-- Where a statement stands that is explained. -/
inductive DetailPlace
  /-- In a list of statements. -/
  | inList
  /-- As the body of a compound statement. -/
  | asBody (mark : Char)
  /-- As the condition after an `else`. -/
  | afterElse
deriving Repr, DecidableEq

namespace DetailPlace

def branchMark : Char := '✓'
def loopMark : Char := '↻'
def tryMark : Char := '▸'
def catchMark : Char := '⚠'

/-- What stands before the first line. -/
def firstLead : DetailPlace → String
  | inList => ""
  | asBody mark => "  " ++ String.singleton mark ++ " "
  | afterElse => "  "

/-- What stands before each other line. -/
def otherLead : DetailPlace → String
  | inList => ""
  | asBody _ => "    "
  | afterElse => "  "

/-- The lines of a statement in their place. -/
def lay (place : DetailPlace) : List String → List String
  | [] => []
  | line :: lines => (place.firstLead ++ line) :: lines.map (place.otherLead ++ ·)

end DetailPlace

/-- Whether the statement is a condition. -/
def Stmt.isIf : Stmt → Bool
  | .ifElse .. => true
  | _ => false

namespace Explainer

open DetailPlace

/-- How deep statements may nest that are explained. -/
def maxDetailDepth : Nat := maxPrintDepth

/-- Lines at a depth, none when it is too deep. -/
@[macro_inline] def within (depth : Nat) (lines : Worded (List String)) : Worded (List String) :=
  if depth > maxDetailDepth then pure [] else lines

/-- The line of a statement that is not opened, if there is anything to say about it. -/
def leafLines (x : Explainer) (s : Stmt) : Worded (List String) := do
  let text ← x.describe s
  return if text.isEmpty then [] else [text]

/-- The first line of a condition. -/
def ifHead (x : Explainer) (test : Option Expr) : Worded String := do
  let condition ← x.condition test
  x.say ⟨"explain.if_then", [("condition", orEmpty condition)]⟩

/-- The first line of a loop with a condition. -/
def whileHead (x : Explainer) : Option Expr → Worded String
  | none => x.label "explain.repeat"
  | some test => do
    let condition ← x.condition (some test)
    x.say ⟨"explain.repeat_while", [("condition", orEmpty condition)]⟩

/-- The first line of a loop over a collection. -/
def eachHead (x : Explainer) : ForLoopKind → Worded String
  | .values => x.label "explain.repeat_each"
  | .keys => x.label "explain.repeat_each_property"

/-- The first line of a handler. -/
def catchHead (x : Explainer) (param : Option Pattern) : Worded String := do
  let name ← match param with
    | some (.ident name _) => pure name
    | _ => x.label "explain.catch_default_name"
  x.say ⟨"explain.catch", [("name", name)]⟩

mutual

/-- The lines of a statement in its place; `depth` statements lie around it. -/
def linesOf (x : Explainer) (place : DetailPlace) (depth : Nat) : Stmt → Worded (List String)
  | s@(.block body _) =>
    match place with
    | .asBody _ => x.linesOfList place depth body
    | _ => within depth do return place.lay (← x.leafLines s)
  | .ifElse test consequent alternate _ => within depth do
    let head ← x.ifHead test
    let yes ← x.linesOf (.asBody branchMark) (depth + 1) consequent
    let no ← match alternate with
      | none => pure []
      | some alternate => do
        let head ← x.label (if alternate.isIf then "explain.else_if" else "explain.else")
        let lines ← x.linesOf (if alternate.isIf then .afterElse else .asBody branchMark) (depth + 1) alternate
        pure (head :: lines)
    return place.lay (head :: yes ++ no)
  | .for init _ _ body _ => within depth do
    let head ← x.label (if init.isSome then "explain.repeat_fixed" else "explain.repeat")
    let lines ← x.linesOf (.asBody loopMark) (depth + 1) body
    return place.lay (head :: lines)
  | .forEach kind _ _ _ body _ => within depth do
    let head ← x.eachHead kind
    let lines ← x.linesOf (.asBody loopMark) (depth + 1) body
    return place.lay (head :: lines)
  | .while test body _ => within depth do
    let head ← x.whileHead test
    let lines ← x.linesOf (.asBody loopMark) (depth + 1) body
    return place.lay (head :: lines)
  | .doWhile body test _ => within depth do
    let head ← x.whileHead test
    let lines ← x.linesOf (.asBody loopMark) (depth + 1) body
    return place.lay (head :: lines)
  | .try block handler finalizer _ => within depth do
    let head ← x.label "explain.try"
    let tried ← x.linesOfList (.asBody tryMark) (depth + 1) block
    let caught ← match handler with
      | none => pure []
      | some (.mk param body _) => do
        let head ← x.catchHead param
        let lines ← x.linesOfList (.asBody catchMark) (depth + 1) body
        pure (head :: lines)
    let ended ← match finalizer with
      | none => pure []
      | some body => do
        let head ← x.label "explain.finally"
        let lines ← x.linesOfList (.asBody branchMark) (depth + 1) body
        pure (head :: lines)
    return place.lay (head :: tried ++ caught ++ ended)
  | s => within depth do return place.lay (← x.leafLines s)

/-- The lines of statements in a place. -/
def linesOfList (x : Explainer) (place : DetailPlace) (depth : Nat) : List Stmt → Worded (List String)
  | [] => pure []
  | s :: ss => do
    let first ← x.linesOf .inList depth s
    let rest ← x.linesOfList place depth ss
    return place.lay first ++ rest

end

/-- The lines that explain a statement. -/
def details (x : Explainer) (s : Stmt) : Worded (List String) := x.linesOf .inList 0 s

/-- The lines that explain statements. -/
def detailsOfList (x : Explainer) (body : List Stmt) : Worded (List String) := x.linesOfList .inList 0 body

end Explainer
end FlowScript
