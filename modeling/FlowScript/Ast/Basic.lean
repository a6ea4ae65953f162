import FlowScript.Ast.Operator
import FlowScript.Source.Span

/-!
# Syntax trees of workflow scripts

Expressions, patterns and statements, each with the span of source text it was read from. Type annotations have no
place in these trees; a declaration that is nothing but types is kept as a `typeOnly` statement with its keyword and
name.
-/

namespace FlowScript

mutual

/-- An expression. -/
inductive Expr
  | ident (name : String) (span : Span)
  | this (span : Span)
  /-- A number as written. -/
  | num (raw : String) (span : Span)
  /-- A string literal: the text as written, quotes included, and the value it stands for. -/
  | str (raw value : String) (span : Span)
  | bool (value : Bool) (span : Span)
  | null (span : Span)
  | regex (raw : String) (span : Span)
  /-- A template literal: the raw text before, between and after the substitutions, and the substitutions. -/
  | template (quasis : List String) (exprs : List Expr) (span : Span)
  | taggedTemplate (tag quasi : Expr) (span : Span)
  /-- An array literal; an element left out is a hole. -/
  | array (elements : List (Option Expr)) (span : Span)
  | object (props : List ObjectProp) (span : Span)
  | spread (arg : Expr) (span : Span)
  | function (func : Function) (span : Span)
  | arrow (isAsync : Bool) (params : List Pattern) (body : ArrowBody) (span : Span)
  | unary (op : UnaryOp) (arg : Expr) (span : Span)
  /-- Increment or decrement; `before` when the operator stands before its operand. -/
  | update (op : UpdateOp) (before : Bool) (arg : Expr) (span : Span)
  | binary (op : BinaryOp) (left right : Expr) (span : Span)
  | assign (op : String) (target value : Expr) (span : Span)
  | conditional (test consequent alternate : Expr) (span : Span)
  | call (callee : Expr) (args : List Expr) (optional : Bool) (span : Span)
  /-- A construction; no argument list at all when written without parentheses. -/
  | new (callee : Expr) (args : Option (List Expr)) (span : Span)
  | member (object : Expr) (property : String) (optional : Bool) (span : Span)
  | index (object index : Expr) (optional : Bool) (span : Span)
  | await (arg : Expr) (span : Span)
  | sequence (exprs : List Expr) (span : Span)
  | paren (expr : Expr) (span : Span)

/-- What an arrow function computes. -/
inductive ArrowBody
  | block (body : List Stmt)
  | expr (expr : Expr)

/-- A member of an object literal. -/
inductive ObjectProp
  | keyValue (key : PropKey) (value : Expr)
  | shorthand (name : String) (default : Option Expr)
  | method (key : PropKey) (func : Function)
  | spread (arg : Expr)

/-- The key of a member of an object literal or pattern. -/
inductive PropKey
  | ident (name : String)
  | str (raw : String)
  | num (raw : String)
  | computed (expr : Expr)

/-- What a declaration, parameter or catch clause binds. -/
inductive Pattern
  | ident (name : String) (span : Span)
  | object (props : List PatternProp) (span : Span)
  | array (elements : List (Option Pattern)) (span : Span)
  | rest (arg : Pattern) (span : Span)
  | assign (target : Pattern) (default : Expr) (span : Span)

/-- A member of an object pattern. -/
inductive PatternProp
  | keyValue (key : PropKey) (value : Pattern)
  | shorthand (name : String) (default : Option Expr)
  | rest (arg : Pattern)

/-- A function, named or not, without its type annotations. -/
inductive Function
  | mk (name : Option String) (isAsync : Bool) (params : List Pattern) (body : List Stmt) (span : Span)

/-- One binding of a variable declaration. -/
inductive Declarator
  | mk (target : Pattern) (init : Option Expr) (span : Span)

/-- The first part of a counting `for` loop. -/
inductive ForInit
  | decl (kind : VarKind) (declarations : List Declarator)
  | expr (expr : Expr)

/-- What a `for` loop over a collection assigns to. -/
inductive ForHead
  | decl (kind : VarKind) (target : Pattern)
  | target (expr : Expr)

inductive CatchClause
  | mk (param : Option Pattern) (body : List Stmt) (span : Span)

/-- A case of a `switch`; without a test it is the default. -/
inductive SwitchCase
  | mk (test : Option Expr) (body : List Stmt) (span : Span)

/-- A statement. A condition that was left empty is absent. -/
inductive Stmt
  | block (body : List Stmt) (span : Span)
  | empty (span : Span)
  | varDecl (kind : VarKind) (declarations : List Declarator) (span : Span)
  | function (func : Function) (span : Span)
  | ifElse (test : Option Expr) (consequent : Stmt) (alternate : Option Stmt) (span : Span)
  | for (init : Option ForInit) (test update : Option Expr) (body : Stmt) (span : Span)
  | forEach (kind : ForLoopKind) (isAwait : Bool) (left : ForHead) (right : Expr) (body : Stmt) (span : Span)
  | while (test : Option Expr) (body : Stmt) (span : Span)
  | doWhile (body : Stmt) (test : Option Expr) (span : Span)
  | try (block : List Stmt) (handler : Option CatchClause) (finalizer : Option (List Stmt)) (span : Span)
  | switch (discriminant : Expr) (cases : List SwitchCase) (span : Span)
  | ret (value : Option Expr) (span : Span)
  | throw (value : Expr) (span : Span)
  | break (span : Span)
  | continue (span : Span)
  | expr (expr : Expr) (span : Span)
  /-- An import: the bindings as written, if any, and the module's name with its quotes. -/
  | importDecl (clause : Option String) (source : String) (span : Span)
  /-- An export of a declaration, or of the names listed in the clause as written. -/
  | exportDecl (declaration : Option Stmt) (clause : Option String) (isDefault : Bool) (span : Span)
  /-- A declaration of types, or a function signature without a body. -/
  | typeOnly (keyword name : String) (span : Span)

end

namespace Function

def name : Function → Option String | mk name _ _ _ _ => name
def isAsync : Function → Bool | mk _ isAsync _ _ _ => isAsync
def params : Function → List Pattern | mk _ _ params _ _ => params
def body : Function → List Stmt | mk _ _ _ body _ => body
def span : Function → Span | mk _ _ _ _ span => span

end Function

namespace Declarator

def target : Declarator → Pattern | mk target _ _ => target
def init : Declarator → Option Expr | mk _ init _ => init
def span : Declarator → Span | mk _ _ span => span

end Declarator

namespace CatchClause

def param : CatchClause → Option Pattern | mk param _ _ => param
def body : CatchClause → List Stmt | mk _ body _ => body
def span : CatchClause → Span | mk _ _ span => span

end CatchClause

namespace SwitchCase

def test : SwitchCase → Option Expr | mk test _ _ => test
def body : SwitchCase → List Stmt | mk _ body _ => body
def span : SwitchCase → Span | mk _ _ span => span

end SwitchCase

namespace Expr

/-- The source text that the expression was read from. -/
def span : Expr → Span
  | ident _ s | this s | num _ s | str _ _ s | bool _ s | null s | regex _ s | template _ _ s | taggedTemplate _ _ s
  | array _ s | object _ s | spread _ s | function _ s | arrow _ _ _ s | unary _ _ s | update _ _ _ s
  | binary _ _ _ s | assign _ _ _ s | conditional _ _ _ s | call _ _ _ s | new _ _ s | member _ _ _ s
  | index _ _ _ s | await _ s | sequence _ s | paren _ s => s

/-- The expression without the `await`s and parentheses around it. -/
def unwrapAwait : Expr → Expr
  | await arg _ => arg.unwrapAwait
  | paren expr _ => expr.unwrapAwait
  | e => e

end Expr

namespace Pattern

/-- The source text that the pattern was read from. -/
def span : Pattern → Span
  | ident _ s | object _ s | array _ s | rest _ s | assign _ _ s => s

end Pattern

mutual

/-- Every name that the pattern binds, in source order. -/
def Pattern.boundNames : Pattern → List String
  | .ident name _ => [name]
  | .object props _ => boundNamesOfProps props
  | .array elements _ => boundNamesOfElements elements
  | .rest arg _ => arg.boundNames
  | .assign target _ _ => target.boundNames

/-- Every name that a member of an object pattern binds. -/
def PatternProp.boundNames : PatternProp → List String
  | .keyValue _ value => value.boundNames
  | .shorthand name _ => [name]
  | .rest arg => arg.boundNames

def boundNamesOfProps : List PatternProp → List String
  | [] => []
  | p :: ps => p.boundNames ++ boundNamesOfProps ps

def boundNamesOfElements : List (Option Pattern) → List String
  | [] => []
  | none :: es => boundNamesOfElements es
  | some e :: es => e.boundNames ++ boundNamesOfElements es

end

namespace Stmt

/-- The source text that the statement was read from. -/
def span : Stmt → Span
  | block _ s | empty s | varDecl _ _ s | function _ s | ifElse _ _ _ s | .for _ _ _ _ s | forEach _ _ _ _ _ s
  | .while _ _ s | doWhile _ _ s | .try _ _ _ s | switch _ _ s | ret _ s | throw _ s | .break s | .continue s
  | expr _ s | importDecl _ _ s | exportDecl _ _ _ s | typeOnly _ _ s => s

/-- Whether the statement is a loop of any form. -/
def isLoop : Stmt → Bool
  | .for .. | forEach .. | .while .. | doWhile .. => true
  | _ => false

/-- Whether the statement branches or repeats. -/
def isControlFlow : Stmt → Bool
  | ifElse .. | .try .. | switch .. => true
  | s => s.isLoop

/-- The name of the statement's form. -/
def kindName : Stmt → String
  | block .. => "block"
  | empty .. => "empty"
  | varDecl .. => "declaration"
  | function .. => "function"
  | ifElse .. => "if"
  | .for .. => "for"
  | forEach .. => "for-each"
  | .while .. => "while"
  | doWhile .. => "do-while"
  | .try .. => "try"
  | switch .. => "switch"
  | ret .. => "return"
  | throw .. => "throw"
  | .break .. => "break"
  | .continue .. => "continue"
  | expr .. => "expression"
  | importDecl .. => "import"
  | exportDecl .. => "export"
  | typeOnly .. => "type"

end Stmt
end FlowScript
