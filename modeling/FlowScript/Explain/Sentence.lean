import FlowScript.Explain.Excerpt
import FlowScript.Explain.Options
import FlowScript.Message.Basic
import FlowScript.Printer.Render

/-!
# One sentence about a statement
-/

namespace FlowScript

/-- What descriptions depend on. -/
structure Explainer where
  options : ExplainOptions
  localizer : Localizer

/-- Why a statement is not described. -/
inductive ExplainError
  | render (cause : RenderError)
deriving Repr, DecidableEq

def ExplainError.message : ExplainError → String
  | render cause => "cannot describe statement: " ++ cause.message

namespace Explainer

/-- The text of a message. -/
def say (x : Explainer) (m : Message) : Worded String := m.worded x.localizer

/-- The text of a message without arguments. -/
def label (x : Explainer) (key : String) : Worded String := x.say (.plain key)

/-- What a failed fragment leaves out. -/
def orEmpty : Except ExplainError String → String
  | .ok text => text
  | .error _ => ""

/-! ## Sentences -/

/-- What the declaration of a name is for, judged by its code. -/
def declaration (name code : String) : Message :=
  if Text.contains code "newPage" then ⟨"explain.create_page", [("name", name)]⟩
  else if Text.contains code "title" then ⟨"explain.store_title", [("name", name)]⟩
  else if Text.containsAny code ["textContent", "innerHTML"] then ⟨"explain.store_text", [("name", name)]⟩
  else
    match Excerpt.initialValue? code with
    | some value => ⟨"explain.assign", [("name", name), ("value", value)]⟩
    | none => ⟨"explain.prepare", [("name", name)]⟩

/-- What an expression is for, judged by its code. -/
def expression (x : Explainer) (code : String) : Message :=
  if Text.contains code "goto" then
    match Excerpt.stringLiteral? code with
    | some url => ⟨"explain.navigate_to", [("url", url)]⟩
    | none => .plain "explain.navigate_given"
  else if Text.contains code "click" then .plain "explain.click"
  else if Text.containsAny code ["type", "fill"] then .plain "explain.fill"
  else if Text.contains code "console.log" then
    match Excerpt.logArguments? code with
    | some args => ⟨"explain.log", [("args", args)]⟩
    | none => .plain "explain.log_plain"
  else if Text.contains code ".push(" then
    match Excerpt.pushed? code with
    | some (array, value) => ⟨"explain.append", [("array", array), ("value", value)]⟩
    | none => .plain "explain.append_plain"
  else
    let simplified := Text.dropLastIf ';' code.toList
    if simplified.length < x.options.inlineCodeWidth then
      ⟨"explain.execute_code", [("code", String.ofList simplified)]⟩
    else .plain "explain.execute"

/-- What a statement with the given code is for. -/
def messageOf (x : Explainer) (code : String) : Stmt → Message
  | .varDecl _ (.mk (.ident name _) _ _ :: _) _ => declaration name code
  | .varDecl .. => .plain "explain.execute"
  | .expr .. => x.expression code
  | .ret .. =>
    match Excerpt.returnedValue? code x.options.returnValueWidth with
    | some value => ⟨"explain.return_value", [("value", value)]⟩
    | none => .plain "explain.return_plain"
  | .ifElse .. => .plain "explain.check_condition"
  | .for .. | .forEach .. | .while .. | .doWhile .. => .plain "explain.loop"
  | .try .. => .plain "explain.error_handling"
  | _ => .plain "explain.execute"

/-- The sentence about a statement. -/
def describeMessage (x : Explainer) (s : Stmt) : Except ExplainError Message :=
  match s.tryRender .oneLine with
  | .ok code => .ok (x.messageOf code s)
  | .error cause => .error (.render cause)

/-- The text of the sentence about a statement, empty when there is none. -/
def describe (x : Explainer) (s : Stmt) : Worded String :=
  match x.describeMessage s with
  | .ok m => x.say m
  | .error _ => pure ""

/-! ## Conditions -/

/-- The key of the words for an operator that is spelled out. -/
def operatorKey? : BinaryOp → Option String
  | .strictEq | .eq => some "operators.equals"
  | .strictNe | .ne => some "operators.differs"
  | .gte => some "operators.at_least"
  | .lte => some "operators.at_most"
  | .gt => some "operators.greater_than"
  | .lt => some "operators.less_than"
  | .and => some "operators.and"
  | .or => some "operators.or"
  | _ => none

/-- The words for an operator. -/
def operatorWords (x : Explainer) (op : BinaryOp) : Option String :=
  (operatorKey? op).map fun key => x.localizer key []

/-- A condition between backticks, with comparisons and logical operators spelled out. -/
def condition (x : Explainer) : Option Expr → Worded (Except ExplainError String)
  | none => pure (.ok "\x60\x60")
  | some test =>
    { value :=
        match test.tryRenderWithWords x.operatorWords with
        | .ok text => .ok ("\x60" ++ String.ofList (Text.trim text.toList) ++ "\x60")
        | .error cause => .error (.render cause)
      lookups := (test.operatorsMet.filter fun op => (operatorKey? op).isSome).length }

end Explainer
end FlowScript
