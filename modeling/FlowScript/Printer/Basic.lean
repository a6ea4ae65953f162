import FlowScript.Ast.Basic
import FlowScript.Printer.Style

/-!
# Printing trees

The text of a tree in a style. No parentheses are added: a tree that was read from a source holds its own.
-/

namespace FlowScript

/-- A sign before an operand, with a space where the two would run together. -/
def signed (symbol operand : String) : String :=
  if symbol.toList.isPrefixOf operand.toList then symbol ++ " " ++ operand else symbol ++ operand

/-- An operator before its operand. -/
def UnaryOp.before (op : UnaryOp) (operand : String) : String :=
  match op with
  | .typeof | .void | .delete => op.symbol ++ " " ++ operand
  | .plus | .minus => signed op.symbol operand
  | .not | .bitNot => op.symbol ++ operand

mutual

/-- The text of an expression; `indent` is the indentation of the line it stands on. -/
def Expr.print (p : Printer) (indent : Nat) : Expr → String
  | .ident name _ => name
  | .this _ => "this"
  | .num raw _ => raw
  | .str raw _ _ => raw
  | .bool value _ => if value then "true" else "false"
  | .null _ => "null"
  | .regex raw _ => raw
  | .template quasis exprs _ => "\x60" ++ printTemplate p indent quasis exprs ++ "\x60"
  | .taggedTemplate tag quasi _ => tag.print p indent ++ quasi.print p indent
  | .array elements _ => "[" ++ printSlots p indent elements ++ "]"
  | .object props _ =>
    match props with
    | [] => "\x7b\x7d"
    | props => "\x7b" ++ printObjectProps p (indent + 1) props ++ p.objectBreak indent ++ "\x7d"
  | .spread arg _ => "..." ++ arg.print p indent
  | .function func _ => func.print p indent
  | .arrow isAsync params body _ =>
    (if isAsync then "async " else "") ++ "(" ++ printPatterns p indent params ++ ")" ++ " => " ++ body.print p indent
  | .unary op arg _ => op.before (arg.print p indent)
  | .update op before arg _ =>
    if before then op.symbol ++ arg.print p indent else arg.print p indent ++ op.symbol
  | .binary op left right _ => left.print p indent ++ " " ++ p.operator op ++ " " ++ right.print p indent
  | .assign op target value _ => target.print p indent ++ " " ++ op ++ " " ++ value.print p indent
  | .conditional test consequent alternate _ =>
    test.print p indent ++ " ? " ++ consequent.print p indent ++ " : " ++ alternate.print p indent
  | .call callee args optional _ =>
    callee.print p indent ++ (if optional then "?." else "") ++ "(" ++ printExprs p indent args ++ ")"
  | .new callee none _ => "new " ++ callee.print p indent
  | .new callee (some args) _ => "new " ++ callee.print p indent ++ "(" ++ printExprs p indent args ++ ")"
  | .member object property optional _ =>
    object.print p indent ++ (if optional then "?." else ".") ++ property
  | .index object index optional _ =>
    object.print p indent ++ (if optional then "?.[" else "[") ++ index.print p indent ++ "]"
  | .await arg _ => "await " ++ arg.print p indent
  | .sequence exprs _ => printExprs p indent exprs
  | .paren expr _ => "(" ++ expr.print p indent ++ ")"

/-- Expressions with commas between them. -/
def printExprs (p : Printer) (indent : Nat) : List Expr → String
  | [] => ""
  | [e] => e.print p indent
  | e :: es => e.print p indent ++ ", " ++ printExprs p indent es

/-- The raw texts of a template with the substitutions between them. -/
def printTemplate (p : Printer) (indent : Nat) (quasis : List String) : List Expr → String
  | [] => String.join quasis
  | e :: es =>
    match quasis with
    | [] => ""
    | quasi :: quasis =>
      quasi ++ "$\x7b" ++ e.print p indent ++ "\x7d" ++ printTemplate p indent quasis es

/-- Elements of an array; a hole in the last place takes a comma of its own. -/
def printSlots (p : Printer) (indent : Nat) : List (Option Expr) → String
  | [] => ""
  | [none] => ","
  | [some e] => e.print p indent
  | none :: es => ", " ++ printSlots p indent es
  | some e :: es => e.print p indent ++ ", " ++ printSlots p indent es

def ArrowBody.print (p : Printer) (indent : Nat) : ArrowBody → String
  | .block body => printBlock p indent body
  | .expr expr => expr.print p indent

def ObjectProp.print (p : Printer) (indent : Nat) : ObjectProp → String
  | .keyValue key value => key.print p indent ++ ": " ++ value.print p indent
  | .shorthand name none => name
  | .shorthand name (some default) => name ++ " = " ++ default.print p indent
  | .method key (.mk _ isAsync params body _) =>
    (if isAsync then "async " else "") ++ key.print p indent ++ "(" ++ printPatterns p indent params ++ ")" ++ " "
      ++ printBlock p indent body
  | .spread arg => "..." ++ arg.print p indent

/-- Members of an object literal with commas between them. -/
def printObjectProps (p : Printer) (indent : Nat) : List ObjectProp → String
  | [] => ""
  | [prop] => p.objectBreak indent ++ prop.print p indent
  | prop :: props => p.objectBreak indent ++ prop.print p indent ++ "," ++ printObjectProps p indent props

def PropKey.print (p : Printer) (indent : Nat) : PropKey → String
  | .ident name => name
  | .str raw => raw
  | .num raw => raw
  | .computed expr => "[" ++ expr.print p indent ++ "]"

/-- The text of a pattern. -/
def Pattern.print (p : Printer) (indent : Nat) : Pattern → String
  | .ident name _ => name
  | .object [] _ => "\x7b\x7d"
  | .object props _ => "\x7b " ++ printPatternProps p indent props ++ " \x7d"
  | .array elements _ => "[" ++ printPatternSlots p indent elements ++ "]"
  | .rest arg _ => "..." ++ arg.print p indent
  | .assign target default _ => target.print p indent ++ " = " ++ default.print p indent

/-- Patterns with commas between them. -/
def printPatterns (p : Printer) (indent : Nat) : List Pattern → String
  | [] => ""
  | [e] => e.print p indent
  | e :: es => e.print p indent ++ ", " ++ printPatterns p indent es

def printPatternSlots (p : Printer) (indent : Nat) : List (Option Pattern) → String
  | [] => ""
  | [none] => ","
  | [some e] => e.print p indent
  | none :: es => ", " ++ printPatternSlots p indent es
  | some e :: es => e.print p indent ++ ", " ++ printPatternSlots p indent es

def PatternProp.print (p : Printer) (indent : Nat) : PatternProp → String
  | .keyValue key value => key.print p indent ++ ": " ++ value.print p indent
  | .shorthand name none => name
  | .shorthand name (some default) => name ++ " = " ++ default.print p indent
  | .rest arg => "..." ++ arg.print p indent

def printPatternProps (p : Printer) (indent : Nat) : List PatternProp → String
  | [] => ""
  | [prop] => prop.print p indent
  | prop :: props => prop.print p indent ++ ", " ++ printPatternProps p indent props

def Function.print (p : Printer) (indent : Nat) : Function → String
  | .mk name isAsync params body _ =>
    (if isAsync then "async " else "") ++ "function" ++ (match name with | none => "" | some name => " " ++ name)
      ++ "(" ++ printPatterns p indent params ++ ")" ++ " " ++ printBlock p indent body

def Declarator.print (p : Printer) (indent : Nat) : Declarator → String
  | .mk target none _ => target.print p indent
  | .mk target (some init) _ => target.print p indent ++ " = " ++ init.print p indent

def printDeclarators (p : Printer) (indent : Nat) : List Declarator → String
  | [] => ""
  | [d] => d.print p indent
  | d :: ds => d.print p indent ++ ", " ++ printDeclarators p indent ds

def ForInit.print (p : Printer) (indent : Nat) : ForInit → String
  | .decl kind declarations => kind.word ++ " " ++ printDeclarators p indent declarations
  | .expr expr => expr.print p indent

def ForHead.print (p : Printer) (indent : Nat) : ForHead → String
  | .decl kind target => kind.word ++ " " ++ target.print p indent
  | .target expr => expr.print p indent

def CatchClause.print (p : Printer) (indent : Nat) : CatchClause → String
  | .mk none body _ => printBlock p indent body
  | .mk (some param) body _ => "(" ++ param.print p indent ++ ") " ++ printBlock p indent body

/-- A case on a line of its own, with its statements indented. -/
def SwitchCase.print (p : Printer) (indent : Nat) : SwitchCase → String
  | .mk none body _ => p.style.newline indent ++ "default:" ++ printBody p (indent + 1) body
  | .mk (some test) body _ =>
    p.style.newline indent ++ "case " ++ test.print p indent ++ ":" ++ printBody p (indent + 1) body

def printCases (p : Printer) (indent : Nat) : List SwitchCase → String
  | [] => ""
  | c :: cs => c.print p indent ++ printCases p indent cs

/-- A condition, perhaps left empty. -/
def printOption (p : Printer) (indent : Nat) : Option Expr → String
  | none => ""
  | some e => e.print p indent

/-- A part of a loop's head after a space, perhaps left empty. -/
def printSpaced (p : Printer) (indent : Nat) : Option Expr → String
  | none => ""
  | some e => " " ++ e.print p indent

/-- The text of a statement. -/
def Stmt.print (p : Printer) (indent : Nat) : Stmt → String
  | .block body _ => printBlock p indent body
  | .empty _ => ";"
  | .varDecl kind declarations _ => kind.word ++ " " ++ printDeclarators p indent declarations ++ ";"
  | .function func _ => func.print p indent
  | .ifElse test consequent none _ => "if (" ++ printOption p indent test ++ ") " ++ consequent.print p indent
  | .ifElse test consequent (some alternate) _ =>
    "if (" ++ printOption p indent test ++ ") " ++ consequent.print p indent ++ " else " ++ alternate.print p indent
  | .for init test update body _ =>
    "for (" ++ (match init with | none => "" | some init => init.print p indent) ++ ";" ++ printSpaced p indent test
      ++ ";" ++ printSpaced p indent update ++ ")" ++ " " ++ body.print p indent
  | .forEach kind isAwait left right body _ =>
    (if isAwait then "for await (" else "for (") ++ left.print p indent ++ " " ++ kind.word ++ " "
      ++ right.print p indent ++ ")" ++ " " ++ body.print p indent
  | .while test body _ => "while (" ++ printOption p indent test ++ ")" ++ " " ++ body.print p indent
  | .doWhile body test _ => "do " ++ body.print p indent ++ " while (" ++ printOption p indent test ++ ");"
  | .try block handler finalizer _ =>
    "try " ++ printBlock p indent block
      ++ (match handler with | none => "" | some clause => " catch " ++ clause.print p indent)
      ++ (match finalizer with | none => "" | some body => " finally " ++ printBlock p indent body)
  | .switch discriminant [] _ => "switch (" ++ discriminant.print p indent ++ ") \x7b\x7d"
  | .switch discriminant cases _ =>
    "switch (" ++ discriminant.print p indent ++ ") \x7b" ++ printCases p (indent + 1) cases
      ++ p.style.newline indent ++ "\x7d"
  | .ret none _ => "return;"
  | .ret (some value) _ => "return " ++ value.print p indent ++ ";"
  | .throw value _ => "throw " ++ value.print p indent ++ ";"
  | .break _ => "break;"
  | .continue _ => "continue;"
  | .expr expr _ => expr.print p indent ++ ";"
  | .importDecl none source _ => "import " ++ source ++ ";"
  | .importDecl (some clause) source _ => "import " ++ clause ++ " from " ++ source ++ ";"
  | .exportDecl (some declaration) _ isDefault _ =>
    (if isDefault then "export default " else "export ") ++ declaration.print p indent
  | .exportDecl none clause isDefault _ =>
    (if isDefault then "export default " else "export ") ++ (match clause with | none => "" | some c => c ++ ";")
  | .typeOnly keyword name _ => if name.isEmpty then keyword else keyword ++ " " ++ name

/-- Statements, each after a line break. -/
def printBody (p : Printer) (indent : Nat) : List Stmt → String
  | [] => ""
  | s :: ss => p.style.newline indent ++ s.print p indent ++ printBody p indent ss

/-- Statements in braces. -/
def printBlock (p : Printer) (indent : Nat) : List Stmt → String
  | [] => "\x7b\x7d"
  | s :: ss =>
    "\x7b" ++ p.style.newline (indent + 1) ++ s.print p (indent + 1) ++ printBody p (indent + 1) ss
      ++ p.style.newline indent ++ "\x7d"

end

/-- The head of a loop without its body, with `…` in place of a body that comes first; empty for all else. -/
def Stmt.printLoopHead (p : Printer) : Stmt → String
  | .for init test update _ _ =>
    "for (" ++ (match init with | none => "" | some init => init.print p 0) ++ ";" ++ printSpaced p 0 test ++ ";"
      ++ printSpaced p 0 update ++ ")"
  | .forEach kind isAwait left right _ _ =>
    (if isAwait then "for await (" else "for (") ++ left.print p 0 ++ " " ++ kind.word ++ " " ++ right.print p 0 ++ ")"
  | .while test _ _ => "while (" ++ printOption p 0 test ++ ")"
  | .doWhile _ test _ => "do … while (" ++ printOption p 0 test ++ ")"
  | _ => ""

end FlowScript
