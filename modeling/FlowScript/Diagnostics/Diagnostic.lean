import FlowScript.Ast.Json

/-!
# Diagnostics
-/

namespace FlowScript

/-- How bad a problem is. -/
inductive Severity
  /-- The statement cannot be explained as written. -/
  | error
  /-- The statement is probably a mistake. -/
  | warning
  /-- The statement could be better. -/
  | hint
deriving Repr, DecidableEq, Inhabited

def Severity.name : Severity → String
  | error => "error"
  | warning => "warning"
  | hint => "hint"

/-- What a problem breaks. -/
inductive LintRule
  | missingCondition | unreachableCode | nestingDepth
deriving Repr, DecidableEq, Inhabited

namespace LintRule

def id : LintRule → String
  | missingCondition => "missing-condition"
  | unreachableCode => "unreachable-code"
  | nestingDepth => "max-nesting-depth"

def description : LintRule → String
  | missingCondition => "Conditions and error handlers must not be empty"
  | unreachableCode => "Statements after return, throw, break or continue never run"
  | nestingDepth => "Statements should not be nested too deeply"

/-- Every rule, in the order in which they are checked. -/
def all : List LintRule := [missingCondition, unreachableCode, nestingDepth]

end LintRule

/-- A problem found in a script. -/
structure Diagnostic where
  span : Span
  message : String
  severity : Severity
  rule : LintRule
deriving Repr, DecidableEq, Inhabited

namespace Diagnostic

def isError (d : Diagnostic) : Bool := d.severity = .error

/-- The order of diagnostics: by the place where they start, then by the name of the rule. -/
def le (a b : Diagnostic) : Bool :=
  a.span.start.offset < b.span.start.offset
    || (a.span.start.offset = b.span.start.offset && a.rule.id ≤ b.rule.id)

/-- A diagnostic on one line; lines and columns count from one. -/
def text (d : Diagnostic) : String :=
  d.severity.name ++ " at line " ++ toString (d.span.start.line + 1) ++ ", col "
    ++ toString (d.span.start.column + 1) ++ ": " ++ d.message ++ " [" ++ d.rule.id ++ "]"

def toJson (d : Diagnostic) : Json :=
  .obj [("span", d.span.toJson), ("message", .str d.message), ("severity", .str d.severity.name),
    ("rule_id", .str d.rule.id)]

end Diagnostic
end FlowScript
