import FlowScript.Ast.Basic

/-!
# Visits of a tree in printing order

Printing goes through a tree from left to right and stops where more than a given number of statements, expressions
and patterns lie inside one another. A visit records which binary operators are met on the way, and whether the end is
reached; `Stmt.fits n`, `Expr.fits n` and `Pattern.fits n` say that it is. The substitutions of a template that no
text precedes are not printed, so they are not visited.
-/

namespace FlowScript

/-- How many nodes may lie inside one another in a tree that is printed. -/
def maxPrintDepth : Nat := 256

/-- What is met on the way through a tree. -/
structure Visit where
  /-- The binary operators, in order. -/
  operators : List BinaryOp
  /-- Whether the way goes to the end of the tree. -/
  finished : Bool
deriving Repr, DecidableEq

namespace Visit

/-- A way on which nothing is met. -/
def nothing : Visit := ⟨[], true⟩

/-- A way that ends at once. -/
def stopped : Visit := ⟨[], false⟩

/-- A way on which one operator is met. -/
def meeting (op : BinaryOp) : Visit := ⟨[op], true⟩

/-- One way after another, if the first is gone to the end. -/
def andThen (a b : Visit) : Visit :=
  if a.finished then ⟨a.operators ++ b.operators, b.finished⟩ else a

instance : Append Visit := ⟨andThen⟩

@[simp] theorem finished_nothing : nothing.finished = true := rfl

@[simp] theorem finished_stopped : stopped.finished = false := rfl

@[simp] theorem finished_meeting (op : BinaryOp) : (meeting op).finished = true := rfl

@[simp] theorem finished_append (a b : Visit) : (a ++ b).finished = (a.finished && b.finished) := by
  show (andThen a b).finished = _
  unfold andThen
  split <;> simp_all

end Visit

mutual

/-- The visit of an expression, `n` nodes deep at most. -/
def Expr.visit : Nat → Expr → Visit
  | 0, _ => .stopped
  | n + 1, e =>
    match e with
    | .ident .. | .this _ | .num .. | .str .. | .bool .. | .null _ | .regex .. => .nothing
    | .template quasis exprs _ => visitTemplate n quasis.length exprs
    | .taggedTemplate tag quasi _ => tag.visit n ++ quasi.visit n
    | .array elements _ => visitSlots n elements
    | .object props _ => visitObjectProps n props
    | .spread arg _ => arg.visit n
    | .function func _ => func.visit n
    | .arrow _ params body _ => visitPatterns n params ++ body.visit n
    | .unary _ arg _ => arg.visit n
    | .update _ _ arg _ => arg.visit n
    | .binary op left right _ => left.visit n ++ .meeting op ++ right.visit n
    | .assign _ target value _ => target.visit n ++ value.visit n
    | .conditional test consequent alternate _ => test.visit n ++ consequent.visit n ++ alternate.visit n
    | .call callee args _ _ => callee.visit n ++ visitExprs n args
    | .new callee args _ => callee.visit n ++ (match args with | none => .nothing | some args => visitExprs n args)
    | .member object _ _ _ => object.visit n
    | .index object index _ _ => object.visit n ++ index.visit n
    | .await arg _ => arg.visit n
    | .sequence exprs _ => visitExprs n exprs
    | .paren expr _ => expr.visit n

def visitExprs : Nat → List Expr → Visit
  | _, [] => .nothing
  | n, e :: es => e.visit n ++ visitExprs n es

/-- The visit of the first `count` substitutions of a template. -/
def visitTemplate : Nat → (count : Nat) → List Expr → Visit
  | _, _, [] => .nothing
  | _, 0, _ :: _ => .nothing
  | n, count + 1, e :: es => e.visit n ++ visitTemplate n count es

def visitSlots : Nat → List (Option Expr) → Visit
  | _, [] => .nothing
  | n, none :: es => visitSlots n es
  | n, some e :: es => e.visit n ++ visitSlots n es

def ArrowBody.visit : Nat → ArrowBody → Visit
  | n, .block body => visitStmts n body
  | n, .expr expr => expr.visit n

def ObjectProp.visit : Nat → ObjectProp → Visit
  | n, .keyValue key value => key.visit n ++ value.visit n
  | _, .shorthand _ none => .nothing
  | n, .shorthand _ (some default) => default.visit n
  | n, .method key func => key.visit n ++ func.visit n
  | n, .spread arg => arg.visit n

def visitObjectProps : Nat → List ObjectProp → Visit
  | _, [] => .nothing
  | n, p :: ps => p.visit n ++ visitObjectProps n ps

def PropKey.visit : Nat → PropKey → Visit
  | n, .computed expr => expr.visit n
  | _, _ => .nothing

/-- The visit of a pattern, `n` nodes deep at most. -/
def Pattern.visit : Nat → Pattern → Visit
  | 0, _ => .stopped
  | n + 1, p =>
    match p with
    | .ident .. => .nothing
    | .object props _ => visitPatternProps n props
    | .array elements _ => visitPatternSlots n elements
    | .rest arg _ => arg.visit n
    | .assign target default _ => target.visit n ++ default.visit n

def visitPatterns : Nat → List Pattern → Visit
  | _, [] => .nothing
  | n, p :: ps => p.visit n ++ visitPatterns n ps

def visitPatternSlots : Nat → List (Option Pattern) → Visit
  | _, [] => .nothing
  | n, none :: ps => visitPatternSlots n ps
  | n, some p :: ps => p.visit n ++ visitPatternSlots n ps

def PatternProp.visit : Nat → PatternProp → Visit
  | n, .keyValue key value => key.visit n ++ value.visit n
  | _, .shorthand _ none => .nothing
  | n, .shorthand _ (some default) => default.visit n
  | n, .rest arg => arg.visit n

def visitPatternProps : Nat → List PatternProp → Visit
  | _, [] => .nothing
  | n, p :: ps => p.visit n ++ visitPatternProps n ps

/-- The visit of parameters and body. -/
def Function.visit : Nat → Function → Visit
  | n, .mk _ _ params body _ => visitPatterns n params ++ visitStmts n body

def Declarator.visit : Nat → Declarator → Visit
  | n, .mk target none _ => target.visit n
  | n, .mk target (some init) _ => target.visit n ++ init.visit n

def visitDeclarators : Nat → List Declarator → Visit
  | _, [] => .nothing
  | n, d :: ds => d.visit n ++ visitDeclarators n ds

def ForInit.visit : Nat → ForInit → Visit
  | n, .decl _ declarations => visitDeclarators n declarations
  | n, .expr expr => expr.visit n

def ForHead.visit : Nat → ForHead → Visit
  | n, .decl _ target => target.visit n
  | n, .target expr => expr.visit n

def CatchClause.visit : Nat → CatchClause → Visit
  | n, .mk none body _ => visitStmts n body
  | n, .mk (some param) body _ => param.visit n ++ visitStmts n body

def SwitchCase.visit : Nat → SwitchCase → Visit
  | n, .mk none body _ => visitStmts n body
  | n, .mk (some test) body _ => test.visit n ++ visitStmts n body

def visitCases : Nat → List SwitchCase → Visit
  | _, [] => .nothing
  | n, c :: cs => c.visit n ++ visitCases n cs

def visitOption : Nat → Option Expr → Visit
  | _, none => .nothing
  | n, some e => e.visit n

/-- The visit of a statement, `n` nodes deep at most. -/
def Stmt.visit : Nat → Stmt → Visit
  | 0, _ => .stopped
  | n + 1, s =>
    match s with
    | .empty _ | .break _ | .continue _ | .importDecl .. | .typeOnly .. => .nothing
    | .block body _ => visitStmts n body
    | .varDecl _ declarations _ => visitDeclarators n declarations
    | .function func _ => func.visit n
    | .ifElse test consequent alternate _ =>
      visitOption n test ++ consequent.visit n ++ (match alternate with | none => .nothing | some s => s.visit n)
    | .for init test update body _ =>
      (match init with | none => .nothing | some init => init.visit n) ++ visitOption n test ++ visitOption n update
        ++ body.visit n
    | .forEach _ _ left right body _ => left.visit n ++ right.visit n ++ body.visit n
    | .while test body _ => visitOption n test ++ body.visit n
    | .doWhile body test _ => body.visit n ++ visitOption n test
    | .try block handler finalizer _ =>
      visitStmts n block ++ (match handler with | none => .nothing | some clause => clause.visit n)
        ++ (match finalizer with | none => .nothing | some body => visitStmts n body)
    | .switch discriminant cases _ => discriminant.visit n ++ visitCases n cases
    | .ret value _ => visitOption n value
    | .throw value _ => value.visit n
    | .expr expr _ => expr.visit n
    | .exportDecl none _ _ _ => .nothing
    | .exportDecl (some declaration) _ _ _ => declaration.visit n

def visitStmts : Nat → List Stmt → Visit
  | _, [] => .nothing
  | n, s :: ss => s.visit n ++ visitStmts n ss

end

/-- Whether at most `n` nodes of the statement lie inside one another. -/
def Stmt.fits (n : Nat) (s : Stmt) : Bool := (s.visit n).finished

/-- Whether at most `n` nodes of the expression lie inside one another. -/
def Expr.fits (n : Nat) (e : Expr) : Bool := (e.visit n).finished

/-- Whether at most `n` nodes of the pattern lie inside one another. -/
def Pattern.fits (n : Nat) (p : Pattern) : Bool := (p.visit n).finished

/-- The visit of a loop's head, that is of what stands before its body or, for a `do` loop, after it. -/
def Stmt.visitLoopHead (n : Nat) : Stmt → Visit
  | .for init test update _ _ =>
    (match init with | none => .nothing | some init => init.visit n) ++ visitOption n test ++ visitOption n update
  | .forEach _ _ left right _ _ => left.visit n ++ right.visit n
  | .while test _ _ | .doWhile _ test _ => visitOption n test
  | _ => .nothing

end FlowScript
