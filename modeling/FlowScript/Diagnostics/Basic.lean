import FlowScript.Diagnostics.Diagnostic
import FlowScript.Diagnostics.Nest
import FlowScript.Text.OneLine

/-!
# Checking scripts

Three rules report what the grammar accepts and still is a problem: conditions and handlers that are left out,
statements that never run, and statements that nest too deep to follow.
-/

namespace FlowScript

namespace LintRule

/-! ## Missing conditions -/

/-- What is missing in a statement. -/
def missingIn? : Stmt → Option String
  | .ifElse none _ _ _ => some "\x60if\x60 has an empty condition"
  | .while none _ _ => some "\x60while\x60 has an empty condition"
  | .doWhile _ none _ => some "\x60do...while\x60 has an empty condition"
  | .try _ none none _ => some "\x60try\x60 has neither \x60catch\x60 nor \x60finally\x60"
  | _ => none

/-- Every statement in which something is missing. -/
def emptyConditions (body : List Nest) : List Diagnostic :=
  (Nest.stmts body).filterMap fun s =>
    (missingIn? s).map fun message => ⟨s.span, message, .error, .missingCondition⟩

/-! ## Unreachable code -/

/-- Whether a statement always leaves its list. -/
def isExit : Stmt → Bool
  | .ret .. | .throw .. | .break .. | .continue .. => true
  | _ => false

/-- Whether a statement does something when it is reached. -/
def isExecutable : Stmt → Bool
  | .empty .. | .function .. | .typeOnly .. => false
  | _ => true

/-- The first exit of a list with what does something after it. -/
def afterExit? : List Stmt → Option (Stmt × List Stmt)
  | [] => none
  | s :: ss => if isExit s then some (s, ss.filter isExecutable) else afterExit? ss

/-- The part of a list that is never reached. -/
def unreachableIn? (body : List Stmt) : Option Diagnostic :=
  match afterExit? body with
  | none => none
  | some (exit, dead) =>
    match dead.head?, dead.getLast? with
    | some first, some last =>
      some ⟨first.span.merge last.span, "Unreachable code after \x60" ++ exit.kindName ++ "\x60", .warning,
        .unreachableCode⟩
    | _, _ => none

/-- Every part of a list that is never reached. -/
def deadCode (body : List Nest) : List Diagnostic := (Nest.lists body).filterMap unreachableIn?

/-! ## Nesting -/

/-- The deepest nesting that reads comfortably. -/
def comfortableDepth : Nat := 10

/-- Every statement just beyond a depth. -/
def deepStmts (depth : Nat) (body : List Nest) : List Diagnostic :=
  (Nest.beyond depth body).map fun s =>
    ⟨s.span, "Nesting depth " ++ toString (depth + 1) ++ " exceeds the maximum of " ++ toString depth, .warning,
      .nestingDepth⟩

/-- What a rule reports. -/
def check (body : List Nest) : LintRule → List Diagnostic
  | missingCondition => emptyConditions body
  | unreachableCode => deadCode body
  | nestingDepth => deepStmts comfortableDepth body

end LintRule

/-- What the rules report of a script, in order. -/
def diagnose (body : List Stmt) : List Diagnostic :=
  (LintRule.all.flatMap (LintRule.check (Nest.ofStmts body))).mergeSort Diagnostic.le

namespace Diagnostic

/-- Diagnostics, one on a line. -/
def listing (found : List Diagnostic) : String := Text.joinLines (found.map text)

/-- Whether one of the diagnostics is an error. -/
def anyError (found : List Diagnostic) : Bool := found.any isError

end Diagnostic

theorem mem_diagnose {body : List Stmt} {d : Diagnostic} :
    d ∈ diagnose body ↔ ∃ rule : LintRule, d ∈ rule.check (Nest.ofStmts body) := by
  simp only [diagnose, List.mem_mergeSort, List.mem_flatMap]
  constructor
  · rintro ⟨rule, -, found⟩
    exact ⟨rule, found⟩
  · rintro ⟨rule, found⟩
    exact ⟨rule, by cases rule <;> simp [LintRule.all], found⟩

end FlowScript
