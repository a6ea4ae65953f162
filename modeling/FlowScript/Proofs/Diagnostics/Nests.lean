import FlowScript.Diagnostics.Basic
import FlowScript.Proofs.Steps.Visible

/-!
# Statements that rules see

Rules go down into every list of statements directly inside a statement: what the steps view shows in sections, and
besides the statements of a block, of a function declaration and of the cases of a `switch`. They go down into invalid
statements too.
-/

namespace FlowScript

/-- The lists of statements directly inside a statement. -/
def Stmt.nestedBodies : Stmt → List (List Stmt)
  | .block body _ => [body]
  | .switch _ cases _ => cases.map SwitchCase.body
  | .function func _ => [func.body]
  | s => s.sections

theorem Stmt.mem_nestedBodies_of_mem_sections {s : Stmt} {body : List Stmt} (inside : body ∈ s.sections) :
    body ∈ s.nestedBodies := by
  cases s with
  | block | switch | function => simp [sections] at inside
  | _ => exact inside

theorem Stmt.sizeOf_of_mem_nestedBodies {s : Stmt} {body : List Stmt} (inside : body ∈ s.nestedBodies) :
    sizeOf body < sizeOf s := by
  cases s with
  | block inner span =>
    obtain rfl := List.mem_singleton.1 inside
    rw [Stmt.block.sizeOf_spec]
    omega
  | switch discriminant cases span =>
    obtain ⟨⟨test, inner, at_⟩, mem, rfl⟩ := List.mem_map.1 inside
    have := List.sizeOf_lt_of_mem mem
    rw [SwitchCase.mk.sizeOf_spec] at this
    rw [Stmt.switch.sizeOf_spec, SwitchCase.body]
    omega
  | function func span =>
    obtain ⟨name, isAsync, params, inner, at_⟩ := func
    obtain rfl := List.mem_singleton.1 inside
    rw [Stmt.function.sizeOf_spec, Function.mk.sizeOf_spec]
    omega
  | _ => exact sizeOf_of_mem_sections inside

mutual

/-- A statement, then every statement in the lists inside it. -/
def statementsOf (s : Stmt) : List Stmt := s :: s.nestedBodies.attach.flatMap fun ⟨body, _⟩ => statementsIn body
termination_by sizeOf s
decreasing_by exact Stmt.sizeOf_of_mem_nestedBodies ‹_›

/-- Every statement of a list and in the lists inside it, outer ones first. -/
def statementsIn (body : List Stmt) : List Stmt := body.attach.flatMap fun ⟨s, _⟩ => statementsOf s
termination_by sizeOf body
decreasing_by exact List.sizeOf_lt_of_mem ‹_›

end

theorem statementsOf_eq (s : Stmt) : statementsOf s = s :: s.nestedBodies.flatMap statementsIn := by
  rw [statementsOf]
  simp

theorem statementsIn_eq (body : List Stmt) : statementsIn body = body.flatMap statementsOf := by
  rw [statementsIn]
  simp

/-- A statement is in a list if it is one of the list's, or in a list inside one of them. -/
theorem mem_statementsIn {t : Stmt} {body : List Stmt} :
    t ∈ statementsIn body ↔ ∃ s ∈ body, t = s ∨ ∃ inner ∈ s.nestedBodies, t ∈ statementsIn inner := by
  simp only [statementsIn_eq body, List.mem_flatMap, statementsOf_eq, List.mem_cons]

/-- A list of statements, then every list inside its statements, outer ones first. -/
def listsIn (body : List Stmt) : List (List Stmt) :=
  body :: body.attach.flatMap fun ⟨s, _⟩ => s.nestedBodies.attach.flatMap fun ⟨inner, _⟩ => listsIn inner
termination_by sizeOf body
decreasing_by
  have : sizeOf s < sizeOf body := List.sizeOf_lt_of_mem ‹_›
  have : sizeOf inner < sizeOf s := Stmt.sizeOf_of_mem_nestedBodies ‹_›
  omega

theorem listsIn_eq (body : List Stmt) :
    listsIn body = body :: body.flatMap fun s => s.nestedBodies.flatMap listsIn := by
  rw [listsIn]
  simp

/-- A list is in another if it is that one, or in a list inside one of its statements. -/
theorem mem_listsIn {list body : List Stmt} :
    list ∈ listsIn body ↔ list = body ∨ ∃ s ∈ body, ∃ inner ∈ s.nestedBodies, list ∈ listsIn inner := by
  simp only [listsIn_eq body, List.mem_cons, List.mem_flatMap]

/-! ## Nests -/

namespace Nest

@[simp] theorem stmt_ofStmt (s : Stmt) : (ofStmt s).stmt = s := by
  cases s with
  | function func span => cases func; rw [ofStmt]; rfl
  | ifElse test consequent alternate span => cases alternate <;> rw [ofStmt] <;> rfl
  | «try» tried handler finalizer span =>
    rcases handler with _ | ⟨param, body, at_⟩ <;> cases finalizer <;> rw [ofStmt] <;> rfl
  | _ => simp [ofStmt, Nest.stmt]

theorem asBranch_ofStmt (s : Stmt) : (ofStmt s).asBranch = ofStmts s.asBody := by
  have single : ofStmts [s] = [ofStmt s] := by rw [ofStmts, ofStmts]
  unfold asBranch
  rw [stmt_ofStmt]
  cases s with
  | block body span => rw [ofStmt]; rfl
  | _ => exact single.symm

theorem ofCases_eq (cases : List SwitchCase) : ofCases cases = cases.map fun c => ofStmts c.body := by
  induction cases with
  | nil => rfl
  | cons c cs ih =>
    cases c
    rw [ofCases, ih]
    rfl

/-- The nest of a statement holds the nests of the lists inside it. -/
theorem ofStmt_eq (s : Stmt) : ofStmt s = mk s (s.nestedBodies.map ofStmts) := by
  cases s with
  | ifElse test consequent alternate span =>
    cases alternate <;> simp [ofStmt, asBranch_ofStmt, Stmt.nestedBodies, Stmt.sections]
  | «try» tried handler finalizer span =>
    rcases handler with _ | ⟨param, body, at_⟩ <;> cases finalizer <;>
      simp [ofStmt, Stmt.nestedBodies, Stmt.sections, CatchClause.body]
  | switch discriminant cases span => simp [ofStmt, ofCases_eq, Stmt.nestedBodies]
  | function func span => cases func; simp [ofStmt, Stmt.nestedBodies, Function.body]
  | _ => simp [ofStmt, asBranch_ofStmt, Stmt.nestedBodies, Stmt.sections]

theorem stmtsOfBodies_eq (bodies : List (List Nest)) : stmtsOfBodies bodies = bodies.flatMap stmts := by
  induction bodies with
  | nil => rw [stmtsOfBodies, List.flatMap_nil]
  | cons b bs ih => rw [stmtsOfBodies, ih, List.flatMap_cons]

/-- The statements of the nests of a list are those in the list. -/
theorem stmts_ofStmts (body : List Stmt) : stmts (ofStmts body) = statementsIn body := by
  cases body with
  | nil => rw [ofStmts, stmts, statementsIn_eq, List.flatMap_nil]
  | cons s ss =>
    have inside : s.nestedBodies.flatMap (fun inner => stmts (ofStmts inner)) = s.nestedBodies.flatMap statementsIn := by
      refine List.flatMap_congr fun inner mem => ?_
      have := Stmt.sizeOf_of_mem_nestedBodies mem
      exact stmts_ofStmts inner
    rw [ofStmts, ofStmt_eq, stmts, stmtsOfBodies_eq, List.flatMap_map, inside, stmts_ofStmts ss, statementsIn_eq (s :: ss),
      statementsIn_eq ss, List.flatMap_cons, statementsOf_eq, List.cons_append]
termination_by sizeOf body
decreasing_by
  · simp only [List.cons.sizeOf_spec]; omega
  · simp only [List.cons.sizeOf_spec]; omega

theorem ofStmts_eq (body : List Stmt) : ofStmts body = body.map ofStmt := by
  induction body with
  | nil => rw [ofStmts, List.map_nil]
  | cons s ss ih => rw [ofStmts, ih, List.map_cons]

theorem map_stmt_ofStmts (body : List Stmt) : (ofStmts body).map stmt = body := by
  rw [ofStmts_eq, List.map_map]
  exact List.map_id'' (fun s => stmt_ofStmt s) body

theorem listsOfBodies_eq (bodies : List (List Nest)) : listsOfBodies bodies = bodies.flatMap lists := by
  induction bodies with
  | nil => rw [listsOfBodies, List.flatMap_nil]
  | cons b bs ih => rw [listsOfBodies, ih, List.flatMap_cons, lists, List.cons_append]

theorem innerLists_eq (ns : List Nest) : innerLists ns = ns.flatMap fun n => n.bodies.flatMap lists := by
  induction ns with
  | nil => rw [innerLists, List.flatMap_nil]
  | cons n ns ih =>
    obtain ⟨s, bodies⟩ := n
    rw [innerLists, ih, listsOfBodies_eq, List.flatMap_cons, Nest.bodies]

/-- The lists of the nests of a list are those in the list. -/
theorem lists_ofStmts (body : List Stmt) : lists (ofStmts body) = listsIn body := by
  rw [lists, map_stmt_ofStmts, innerLists_eq, listsIn_eq, ofStmts_eq, List.flatMap_map]
  congr 1
  refine List.flatMap_congr fun s mem => ?_
  rw [ofStmt_eq, Nest.bodies, List.flatMap_map]
  refine List.flatMap_congr fun inner inside => ?_
  have := List.sizeOf_lt_of_mem mem
  have := Stmt.sizeOf_of_mem_nestedBodies inside
  exact lists_ofStmts inner
termination_by sizeOf body

end Nest
end FlowScript
