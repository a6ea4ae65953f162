import FlowScript.Ast.Basic

/-!
# Nests of statements

A nest is a statement with the lists of statements directly inside it. A branch that is a block is the list of the
block's statements, a branch that is a single statement is a list of that one.
-/

namespace FlowScript

/-- A statement with the lists of statements directly inside it, each with theirs. -/
inductive Nest
  | mk (stmt : Stmt) (bodies : List (List Nest))

namespace Nest

def stmt : Nest → Stmt | mk stmt _ => stmt
def bodies : Nest → List (List Nest) | mk _ bodies => bodies

/-- The list that a statement is as a branch. -/
def asBranch (n : Nest) : List Nest :=
  match n.stmt with
  | .block .. => n.bodies.headD []
  | _ => [n]

mutual

/-- The nest of a statement. -/
def ofStmt : Stmt → Nest
  | s@(.block body _) => mk s [ofStmts body]
  | s@(.ifElse _ consequent alternate _) =>
    mk s ((ofStmt consequent).asBranch :: (match alternate with | none => [] | some a => [(ofStmt a).asBranch]))
  | s@(.for _ _ _ body _) => mk s [(ofStmt body).asBranch]
  | s@(.forEach _ _ _ _ body _) => mk s [(ofStmt body).asBranch]
  | s@(.while _ body _) => mk s [(ofStmt body).asBranch]
  | s@(.doWhile body _ _) => mk s [(ofStmt body).asBranch]
  | s@(.try block handler finalizer _) =>
    mk s (ofStmts block :: (match handler with | none => [] | some (.mk _ body _) => [ofStmts body])
      ++ (match finalizer with | none => [] | some body => [ofStmts body]))
  | s@(.switch _ cases _) => mk s (ofCases cases)
  | s@(.function (.mk _ _ _ body _) _) => mk s [ofStmts body]
  | s => mk s []

def ofStmts : List Stmt → List Nest
  | [] => []
  | s :: ss => ofStmt s :: ofStmts ss

def ofCases : List SwitchCase → List (List Nest)
  | [] => []
  | .mk _ body _ :: cs => ofStmts body :: ofCases cs

end

/-! ## Traversals -/

mutual

/-- Every statement of some nests, outer ones first. -/
def stmts : List Nest → List Stmt
  | [] => []
  | mk s bodies :: ns => s :: (stmtsOfBodies bodies ++ stmts ns)

def stmtsOfBodies : List (List Nest) → List Stmt
  | [] => []
  | b :: bs => stmts b ++ stmtsOfBodies bs

end

mutual

/-- The lists inside some nests, outer ones first. -/
def innerLists : List Nest → List (List Stmt)
  | [] => []
  | mk _ bodies :: ns => listsOfBodies bodies ++ innerLists ns

def listsOfBodies : List (List Nest) → List (List Stmt)
  | [] => []
  | b :: bs => b.map Nest.stmt :: (innerLists b ++ listsOfBodies bs)

end

/-- The list that some nests are, and the lists inside them, outer ones first. -/
def lists (ns : List Nest) : List (List Stmt) := ns.map Nest.stmt :: innerLists ns

mutual

/-- The statements that lie deeper than `levels` levels inside, but not inside another such statement. -/
def beyond (levels : Nat) : List Nest → List Stmt
  | [] => []
  | mk _ bodies :: ns =>
    (match levels with
      | 0 => bodies.flatMap fun b => b.map Nest.stmt
      | n + 1 => beyondInBodies n bodies) ++ beyond levels ns

def beyondInBodies (levels : Nat) : List (List Nest) → List Stmt
  | [] => []
  | b :: bs => beyond levels b ++ beyondInBodies levels bs

end

end Nest
end FlowScript
