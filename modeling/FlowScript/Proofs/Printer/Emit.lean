import FlowScript.Printer.Render
import FlowScript.Proofs.Ast.Node

/-!
# Printing with counters

A printer that writes a tree piece by piece. It keeps what it has written, how far the line is indented and how many
statements, expressions and patterns it is in; it counts them when it enters and leaves them, and stops when there are
too many. `Emit` is a stretch of such printing.
-/

namespace FlowScript

/-- What a printer has written, and where it is. -/
structure PrintState where
  out : String
  indent : Nat
  /-- How many statements, expressions and patterns lie around what is printed next. -/
  depth : Nat

/-- Nothing is written, and nothing lies around. -/
def PrintState.start : PrintState := ⟨"", 0, 0⟩

/-- A stretch of printing, which stops where the tree nests too deep. -/
abbrev Emit := StateT PrintState (Except RenderError) Unit

namespace Emit

/-- Writes a text. -/
def push (text : String) : Emit := modify fun st => { st with out := st.out ++ text }

/-- Writes a text if asked to. -/
def pushIf (asked : Bool) (text : String) : Emit := if asked then push text else pure ()

/-- Goes one statement, expression or pattern deeper. -/
def enter : Emit := fun st =>
  if st.depth + 1 > maxPrintDepth then .error .tooDeep else .ok ((), { st with depth := st.depth + 1 })

def leave : Emit := modify fun st => { st with depth := st.depth - 1 }

/-- Prints what is inside a statement, expression or pattern. -/
def level (inside : Emit) : Emit := do
  enter
  inside
  leave

/-- Prints with the lines indented one more step. -/
def indented (inside : Emit) : Emit := do
  modify fun st => { st with indent := st.indent + 1 }
  inside
  modify fun st => { st with indent := st.indent - 1 }

/-- Begins a statement: on a line of its own, or after a space. -/
def newline (p : Printer) : Emit := do
  push (p.style.newline (← get).indent)

/-- Begins a member of an object literal, or ends the last. -/
def objectBreak (p : Printer) : Emit := do
  push (p.objectBreak (← get).indent)

/-- Some stretches with a text between them. -/
def separated (mark : String) : List Emit → Emit
  | [] => pure ()
  | [m] => m
  | m :: ms => do
    m
    push mark
    separated mark ms

/-- Elements with commas between them; a hole in the last place takes a comma of its own. -/
def elements (items : List (Option Emit)) : Emit := do
  separated ", " (items.map (·.getD (pure ())))
  pushIf (items.getLast?.any (·.isNone)) ","

/-- The operand of an operator; a space goes before it afterwards if it begins with the sign that it follows. -/
def operand (op : UnaryOp) (inside : Emit) : Emit := do
  let mark := (← get).out.length
  inside
  modify fun st =>
    let (before, text) := st.out.toList.splitAt mark
    if (op = .plus ∨ op = .minus) ∧ op.symbol.toList.isPrefixOf text then
      { st with out := String.ofList (before ++ ' ' :: text) }
    else st

/-- Statements in braces. -/
def braces (p : Printer) (body : List Stmt) (inside : Emit) : Emit :=
  if body.isEmpty then push "\x7b\x7d"
  else do
    push "\x7b"
    indented inside
    newline p
    push "\x7d"

end Emit

open Emit

mutual

/-- Prints an expression. -/
def Expr.emit (p : Printer) (e : Expr) : Emit :=
  level <|
    match e with
    | .ident name _ => push name
    | .this _ => push "this"
    | .num raw _ | .str raw _ _ | .regex raw _ => push raw
    | .bool value _ => push (if value then "true" else "false")
    | .null _ => push "null"
    | .template quasis exprs _ => do
      push "\x60"
      emitTemplate p quasis exprs
      push "\x60"
    | .taggedTemplate tag quasi _ => do
      tag.emit p
      quasi.emit p
    | .array items _ => do
      push "["
      elements (emitSlots p items)
      push "]"
    | .object [] _ => push "\x7b\x7d"
    | .object props _ => do
      push "\x7b"
      indented (separated "," (emitObjectProps p props))
      objectBreak p
      push "\x7d"
    | .spread arg _ => do
      push "..."
      arg.emit p
    | .function func _ => func.emit p
    | .arrow isAsync params body _ => do
      pushIf isAsync "async "
      push "("
      separated ", " (emitPatterns p params)
      push ")"
      push " => "
      body.emit p
    | .unary op arg _ => do
      push op.symbol
      pushIf op.isWord " "
      operand op (arg.emit p)
    | .update op true arg _ => do
      push op.symbol
      arg.emit p
    | .update op false arg _ => do
      arg.emit p
      push op.symbol
    | .binary op left right _ => do
      left.emit p
      push " "
      push (p.operator op)
      push " "
      right.emit p
    | .assign op target value _ => do
      target.emit p
      push " "
      push op
      push " "
      value.emit p
    | .conditional test consequent alternate _ => do
      test.emit p
      push " ? "
      consequent.emit p
      push " : "
      alternate.emit p
    | .call callee args optional _ => do
      callee.emit p
      pushIf optional "?."
      push "("
      separated ", " (emitExprs p args)
      push ")"
    | .new callee none _ => do
      push "new "
      callee.emit p
    | .new callee (some args) _ => do
      push "new "
      callee.emit p
      push "("
      separated ", " (emitExprs p args)
      push ")"
    | .member object property optional _ => do
      object.emit p
      push (if optional then "?." else ".")
      push property
    | .index object index optional _ => do
      object.emit p
      push (if optional then "?.[" else "[")
      index.emit p
      push "]"
    | .await arg _ => do
      push "await "
      arg.emit p
    | .sequence exprs _ => separated ", " (emitExprs p exprs)
    | .paren expr _ => do
      push "("
      expr.emit p
      push ")"

def emitExprs (p : Printer) : List Expr → List Emit
  | [] => []
  | e :: es => e.emit p :: emitExprs p es

/-- Prints the raw texts of a template, each with the substitution after it. -/
def emitTemplate (p : Printer) (quasis : List String) : List Expr → Emit
  | [] => quasis.forM push
  | e :: es =>
    match quasis with
    | [] => pure ()
    | quasi :: quasis => do
      push quasi
      push "$\x7b"
      e.emit p
      push "\x7d"
      emitTemplate p quasis es

def emitSlots (p : Printer) : List (Option Expr) → List (Option Emit)
  | [] => []
  | none :: es => none :: emitSlots p es
  | some e :: es => some (e.emit p) :: emitSlots p es

def ArrowBody.emit (p : Printer) : ArrowBody → Emit
  | .block body => braces p body (emitBody p body)
  | .expr expr => expr.emit p

def ObjectProp.emit (p : Printer) : ObjectProp → Emit
  | .keyValue key value => do
    key.emit p
    push ": "
    value.emit p
  | .shorthand name default => do
    push name
    emitOption p " = " default
  | .method key (.mk _ isAsync params body _) => do
    pushIf isAsync "async "
    key.emit p
    push "("
    separated ", " (emitPatterns p params)
    push ")"
    push " "
    braces p body (emitBody p body)
  | .spread arg => do
    push "..."
    arg.emit p

/-- The members of an object literal, each begun on a line of its own or after a space. -/
def emitObjectProps (p : Printer) : List ObjectProp → List Emit
  | [] => []
  | prop :: props => (do objectBreak p; prop.emit p) :: emitObjectProps p props

def PropKey.emit (p : Printer) : PropKey → Emit
  | .ident name => push name
  | .str raw | .num raw => push raw
  | .computed expr => do
    push "["
    expr.emit p
    push "]"

/-- Prints a pattern. -/
def Pattern.emit (p : Printer) (x : Pattern) : Emit :=
  level <|
    match x with
    | .ident name _ => push name
    | .object [] _ => push "\x7b\x7d"
    | .object props _ => do
      push "\x7b "
      separated ", " (emitPatternProps p props)
      push " \x7d"
    | .array items _ => do
      push "["
      elements (emitPatternSlots p items)
      push "]"
    | .rest arg _ => do
      push "..."
      arg.emit p
    | .assign target default _ => do
      target.emit p
      push " = "
      default.emit p

def emitPatterns (p : Printer) : List Pattern → List Emit
  | [] => []
  | x :: xs => x.emit p :: emitPatterns p xs

def emitPatternSlots (p : Printer) : List (Option Pattern) → List (Option Emit)
  | [] => []
  | none :: xs => none :: emitPatternSlots p xs
  | some x :: xs => some (x.emit p) :: emitPatternSlots p xs

def PatternProp.emit (p : Printer) : PatternProp → Emit
  | .keyValue key value => do
    key.emit p
    push ": "
    value.emit p
  | .shorthand name default => do
    push name
    emitOption p " = " default
  | .rest arg => do
    push "..."
    arg.emit p

def emitPatternProps (p : Printer) : List PatternProp → List Emit
  | [] => []
  | prop :: props => prop.emit p :: emitPatternProps p props

def Function.emit (p : Printer) : Function → Emit
  | .mk name isAsync params body _ => do
    pushIf isAsync "async "
    push "function"
    pushIf name.isSome (" " ++ name.getD "")
    push "("
    separated ", " (emitPatterns p params)
    push ")"
    push " "
    braces p body (emitBody p body)

def Declarator.emit (p : Printer) : Declarator → Emit
  | .mk target init _ => do
    target.emit p
    emitOption p " = " init

def emitDeclarators (p : Printer) : List Declarator → List Emit
  | [] => []
  | d :: ds => d.emit p :: emitDeclarators p ds

def ForInit.emit (p : Printer) : ForInit → Emit
  | .decl kind declarations => do
    push kind.word
    push " "
    separated ", " (emitDeclarators p declarations)
  | .expr expr => expr.emit p

def emitInit (p : Printer) : Option ForInit → Emit
  | none => pure ()
  | some init => init.emit p

def ForHead.emit (p : Printer) : ForHead → Emit
  | .decl kind target => do
    push kind.word
    push " "
    target.emit p
  | .target expr => expr.emit p

def CatchClause.emit (p : Printer) : CatchClause → Emit
  | .mk none body _ => braces p body (emitBody p body)
  | .mk (some param) body _ => do
    push "("
    param.emit p
    push ") "
    braces p body (emitBody p body)

/-- Prints a case on a line of its own, with its statements indented. -/
def SwitchCase.emit (p : Printer) : SwitchCase → Emit
  | .mk none body _ => do
    newline p
    push "default:"
    indented (emitBody p body)
  | .mk (some test) body _ => do
    newline p
    push "case "
    test.emit p
    push ":"
    indented (emitBody p body)

def emitCases (p : Printer) : List SwitchCase → Emit
  | [] => pure ()
  | c :: cs => do
    c.emit p
    emitCases p cs

/-- Prints an expression after a text, or nothing at all. -/
def emitOption (p : Printer) (lead : String) : Option Expr → Emit
  | none => pure ()
  | some e => do
    push lead
    e.emit p

/-- Prints a statement. -/
def Stmt.emit (p : Printer) (s : Stmt) : Emit :=
  level <|
    match s with
    | .block body _ => braces p body (emitBody p body)
    | .empty _ => push ";"
    | .varDecl kind declarations _ => do
      push kind.word
      push " "
      separated ", " (emitDeclarators p declarations)
      push ";"
    | .function func _ => func.emit p
    | .ifElse test consequent none _ => do
      push "if ("
      emitOption p "" test
      push ") "
      consequent.emit p
    | .ifElse test consequent (some alternate) _ => do
      push "if ("
      emitOption p "" test
      push ") "
      consequent.emit p
      push " else "
      alternate.emit p
    | .for init test update body _ => do
      push "for ("
      emitInit p init
      push ";"
      emitOption p " " test
      push ";"
      emitOption p " " update
      push ")"
      push " "
      body.emit p
    | .forEach kind isAwait left right body _ => do
      push (if isAwait then "for await (" else "for (")
      left.emit p
      push " "
      push kind.word
      push " "
      right.emit p
      push ")"
      push " "
      body.emit p
    | .while test body _ => do
      push "while ("
      emitOption p "" test
      push ")"
      push " "
      body.emit p
    | .doWhile body test _ => do
      push "do "
      body.emit p
      push " while ("
      emitOption p "" test
      push ");"
    | .try block handler finalizer _ => do
      push "try "
      braces p block (emitBody p block)
      emitHandler p handler
      emitFinalizer p finalizer
    | .switch discriminant [] _ => do
      push "switch ("
      discriminant.emit p
      push ") \x7b"
      push "\x7d"
    | .switch discriminant cases _ => do
      push "switch ("
      discriminant.emit p
      push ") \x7b"
      indented (emitCases p cases)
      newline p
      push "\x7d"
    | .ret none _ => push "return;"
    | .ret (some value) _ => do
      push "return "
      value.emit p
      push ";"
    | .throw value _ => do
      push "throw "
      value.emit p
      push ";"
    | .break _ => push "break;"
    | .continue _ => push "continue;"
    | .expr expr _ => do
      expr.emit p
      push ";"
    | .importDecl clause source _ => do
      push "import "
      pushIf clause.isSome (clause.getD "" ++ " from ")
      push source
      push ";"
    | .exportDecl (some declaration) _ isDefault _ => do
      push (if isDefault then "export default " else "export ")
      declaration.emit p
    | .exportDecl none clause isDefault _ => do
      push (if isDefault then "export default " else "export ")
      pushIf clause.isSome (clause.getD "" ++ ";")
    | .typeOnly keyword name _ => do
      push keyword
      pushIf (!name.isEmpty) (" " ++ name)

def emitBody (p : Printer) : List Stmt → Emit
  | [] => pure ()
  | s :: ss => do
    newline p
    s.emit p
    emitBody p ss

def emitHandler (p : Printer) : Option CatchClause → Emit
  | none => pure ()
  | some clause => do
    push " catch "
    clause.emit p

def emitFinalizer (p : Printer) : Option (List Stmt) → Emit
  | none => pure ()
  | some body => do
    push " finally "
    braces p body (emitBody p body)

end

/-- Prints a node. -/
def Node.emit (p : Printer) : Node → Emit
  | expr e => e.emit p
  | pattern x => x.emit p
  | stmt s => s.emit p
  | declarator d => d.emit p
  | function f => f.emit p
  | catchClause c => c.emit p
  | switchCase c => c.emit p

end FlowScript
