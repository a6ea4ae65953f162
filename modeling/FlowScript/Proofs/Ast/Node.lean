import FlowScript.Proofs.Ast.Precedence

/-!
# Nodes of a syntax tree

What has a span of its own: expressions, patterns, statements, declarators, functions, catch clauses and cases. The
nodes directly below a node are its children, in source order, each with the slot of the grammar that it stands in. A
property holds everywhere in a node when it holds of the node and everywhere in its children.
-/

namespace FlowScript

/-- A part of a syntax tree that has a span. -/
inductive Node
  | expr (expr : Expr)
  | pattern (pattern : Pattern)
  | stmt (stmt : Stmt)
  | declarator (declarator : Declarator)
  | function (func : Function)
  | catchClause (clause : CatchClause)
  | switchCase (clause : SwitchCase)

/-- What the grammar asks of a node in a place. -/
inductive Slot
  /-- An expression of a level, or one that binds tighter. -/
  | least (level : Precedence)
  /-- An expression that binds tighter than a level. -/
  | above (level : Precedence)
  /-- An argument or element: a spread, or anything but a sequence. -/
  | item
  /-- What `new` constructs. -/
  | constructor
  /-- What a module exports by default: a function, or an expression that is no sequence. -/
  | default
  /-- Anything but an expression. -/
  | other
deriving DecidableEq

/-- A node with the slot it stands in. -/
structure Child where
  slot : Slot
  node : Node

/-! ## Slots -/

namespace Slot

/-- The nodes that may stand in a slot. -/
def Admits : Slot → Node → Prop
  | least level, .expr e => level ≤ e.precedence
  | above level, .expr e => level < e.precedence
  | item, .expr e => e.precedence = .spread ∨ .assign ≤ e.precedence
  | constructor, .expr e => e.isConstructor = true
  | default, .stmt (.function _ _) => True
  | default, .stmt (.expr e _) => .assign ≤ e.precedence
  | other, .expr _ => False
  | other, _ => True
  | _, _ => False

/-- Whether all that one slot admits is seen to be admitted by another. -/
def implies : Slot → Slot → Bool
  | least p, least q => q ≤ p
  | least p, above q => q < p
  | least p, item => .assign ≤ p
  | least p, constructor => .primary ≤ p
  | constructor, least q => q ≤ .call
  | default, other => true
  | s, t => s = t

theorem Admits.weaken {s t : Slot} {n : Node} (h : s.Admits n) (implied : s.implies t = true) : t.Admits n := by
  unfold implies at implied
  split at implied
  · cases n <;> first | exact h | exact Precedence.le_trans (of_decide_eq_true implied) h
  · cases n <;> first | exact h | exact Precedence.lt_of_lt_of_le (of_decide_eq_true implied) h
  · cases n <;> first | exact h | exact .inr (Precedence.le_trans (of_decide_eq_true implied) h)
  · cases n <;> first | exact h |
      exact Expr.isConstructor_of_primary_le (Precedence.le_trans (of_decide_eq_true implied) h)
  · cases n <;> first | exact h |
      exact Precedence.le_trans (of_decide_eq_true implied) (Expr.call_le_of_isConstructor h)
  · cases n <;> first | exact h | trivial
  · rwa [← of_decide_eq_true implied]

end Slot

/-! ## Children -/

namespace Child

/-- An expression of a level or a tighter one. -/
def expr (level : Precedence) (e : Expr) : Child := ⟨.least level, .expr e⟩

def item (e : Expr) : Child := ⟨.item, .expr e⟩

def pattern (p : Pattern) : Child := ⟨.other, .pattern p⟩

def stmt (s : Stmt) : Child := ⟨.other, .stmt s⟩

def declarator (d : Declarator) : Child := ⟨.other, .declarator d⟩

def function (f : Function) : Child := ⟨.other, .function f⟩

@[simp] theorem node_expr (level : Precedence) (e : Expr) : (expr level e).node = .expr e := rfl

@[simp] theorem node_item (e : Expr) : (item e).node = .expr e := rfl

@[simp] theorem node_pattern (p : Pattern) : (pattern p).node = .pattern p := rfl

@[simp] theorem node_stmt (s : Stmt) : (stmt s).node = .stmt s := rfl

@[simp] theorem node_declarator (d : Declarator) : (declarator d).node = .declarator d := rfl

@[simp] theorem node_function (f : Function) : (function f).node = .function f := rfl

/-- An expression that may be absent. -/
def optional (level : Precedence) (e : Option Expr) : List Child := e.toList.map (expr level)

end Child

def PropKey.children : PropKey → List Child
  | ident _ | str _ | num _ => []
  | computed e => [.expr .assign e]

def ObjectProp.children : ObjectProp → List Child
  | keyValue key value => key.children ++ [.expr .assign value]
  | shorthand _ default => Child.optional .assign default
  | method key func => key.children ++ [.function func]
  | spread arg => [.expr .assign arg]

def PatternProp.children : PatternProp → List Child
  | keyValue key value => key.children ++ [.pattern value]
  | shorthand _ default => Child.optional .assign default
  | rest arg => [.pattern arg]

def ArrowBody.children : ArrowBody → List Child
  | block body => body.map .stmt
  | expr e => [.expr .assign e]

def ForInit.children : ForInit → List Child
  | decl _ declarations => declarations.map .declarator
  | expr e => [.expr .sequence e]

def ForHead.children : ForHead → List Child
  | decl _ binding => [.pattern binding]
  | target e => [.expr .call e]

/-- What the operator of a binary expression asks of its left operand. Only powers group to the right. -/
def BinaryOp.leftSlot (op : BinaryOp) : Slot := if op = .exp then .least .unary else .least op.precedence

/-- What the operator of a binary expression asks of its right operand. -/
def BinaryOp.rightSlot (op : BinaryOp) : Slot := if op = .exp then .least .exponent else .above op.precedence

def Expr.children : Expr → List Child
  | ident .. | this _ | num .. | str .. | bool .. | null _ | regex .. => []
  | template _ exprs _ => exprs.map (.expr .sequence)
  | taggedTemplate tag quasi _ => [.expr .call tag, .expr .primary quasi]
  | array elements _ => elements.reduceOption.map .item
  | object props _ => props.flatMap ObjectProp.children
  | spread arg _ => [.expr .assign arg]
  | function func _ => [.function func]
  | arrow _ params body _ => params.map .pattern ++ body.children
  | unary _ arg _ | await arg _ => [.expr .unary arg]
  | update _ before arg _ => [.expr (if before then .unary else .call) arg]
  | binary op left right _ => [⟨op.leftSlot, .expr left⟩, ⟨op.rightSlot, .expr right⟩]
  | assign _ target value _ => [.expr .conditional target, .expr .assign value]
  | conditional test consequent alternate _ => [.expr .nullish test, .expr .assign consequent, .expr .assign alternate]
  | call callee args _ _ => .expr .call callee :: args.map .item
  | new callee args _ => ⟨.constructor, .expr callee⟩ :: (args.getD []).map .item
  | member inner _ _ _ => [.expr .call inner]
  | index inner at_ _ _ => [.expr .call inner, .expr .sequence at_]
  | sequence exprs _ => exprs.map (.expr .assign)
  | paren e _ => [.expr .sequence e]

def Pattern.children : Pattern → List Child
  | ident .. => []
  | object props _ => props.flatMap PatternProp.children
  | array elements _ => elements.reduceOption.map .pattern
  | rest arg _ => [.pattern arg]
  | assign target default _ => [.pattern target, .expr .assign default]

def Function.children : Function → List Child
  | mk _ _ params body _ => params.map .pattern ++ body.map .stmt

def Declarator.children : Declarator → List Child
  | mk target init _ => .pattern target :: Child.optional .assign init

def CatchClause.children : CatchClause → List Child
  | mk param body _ => param.toList.map .pattern ++ body.map .stmt

def SwitchCase.children : SwitchCase → List Child
  | mk test body _ => Child.optional .sequence test ++ body.map .stmt

def Stmt.children : Stmt → List Child
  | empty _ | .break _ | .continue _ | importDecl .. | typeOnly .. => []
  | block body _ => body.map .stmt
  | varDecl _ declarations _ => declarations.map .declarator
  | function func _ => [.function func]
  | ifElse test consequent alternate _ =>
    Child.optional .sequence test ++ .stmt consequent :: alternate.toList.map .stmt
  | .for init test update body _ =>
    init.toList.flatMap ForInit.children ++ Child.optional .sequence test ++ Child.optional .sequence update ++ [.stmt body]
  | forEach _ _ left right body _ => left.children ++ [.expr .sequence right, .stmt body]
  | .while test body _ => Child.optional .sequence test ++ [.stmt body]
  | doWhile body test _ => .stmt body :: Child.optional .sequence test
  | .try tried handler finalizer _ =>
    tried.map .stmt ++ handler.toList.map (fun clause => ⟨.other, .catchClause clause⟩) ++
      finalizer.toList.flatten.map .stmt
  | switch discriminant cases _ =>
    .expr .sequence discriminant :: cases.map fun clause => ⟨.other, .switchCase clause⟩
  | ret value _ => Child.optional .sequence value
  | throw value _ => [.expr .sequence value]
  | expr e _ => [.expr .sequence e]
  | exportDecl declaration _ isDefault _ =>
    declaration.toList.map fun s => ⟨if isDefault then .default else .other, .stmt s⟩

namespace Node

/-- The source text that the node was read from. -/
def span : Node → Span
  | expr e => e.span
  | pattern p => p.span
  | stmt s => s.span
  | declarator d => d.span
  | function f => f.span
  | catchClause c => c.span
  | switchCase c => c.span

/-- The bytes of the source text. -/
def length (n : Node) : Nat := n.span.stop.offset - n.span.start.offset

/-- The nodes directly below a node, in source order. -/
def children : Node → List Child
  | expr e => e.children
  | pattern p => p.children
  | stmt s => s.children
  | declarator d => d.children
  | function f => f.children
  | catchClause c => c.children
  | switchCase c => c.children

/-- The lists of statements directly below a node. -/
def bodies : Node → List (List Stmt)
  | expr (.arrow _ _ (.block body) _) => [body]
  | stmt (.block body _) => [body]
  | stmt (.try tried _ finalizer _) => tried :: finalizer.toList
  | function f => [f.body]
  | catchClause c => [c.body]
  | switchCase c => [c.body]
  | _ => []

/-- The text that a name, a number, a string or a regular expression records. -/
def text? : Node → Option String
  | expr (.ident name _) | pattern (.ident name _) => some name
  | expr (.num raw _) | expr (.str raw _ _) | expr (.regex raw _) => some raw
  | _ => none

/-- The name that an expression or a pattern consists of. -/
def name? : Node → Option String
  | expr (.ident name _) | pattern (.ident name _) => some name
  | _ => none

theorem name?_of_text? {n : Node} (records : n.text? = none) : n.name? = none := by
  unfold name?
  split
  · cases records
  · cases records
  · rfl

/-- The nodes in a node: itself, and those in its children. -/
inductive Holds : Node → Node → Prop
  | self {n : Node} : Holds n n
  | inside {n m : Node} {c : Child} : c ∈ n.children → Holds c.node m → Holds n m

/-- What is in a node has its children in it as well. -/
theorem Holds.child {n m : Node} (held : n.Holds m) {c : Child} (mem : c ∈ m.children) : n.Holds c.node := by
  induction held with
  | self => exact .inside mem .self
  | inside among _ ih => exact .inside among (ih mem)

/-- A property of a node and of all nodes in its children. -/
inductive Everywhere (P : Node → Prop) : Node → Prop
  | node {n : Node} : P n → (∀ c ∈ n.children, Everywhere P c.node) → Everywhere P n

namespace Everywhere

variable {P : Node → Prop} {n m : Node}

theorem here (h : Everywhere P n) : P n := by
  cases h; assumption

theorem child (h : Everywhere P n) {c : Child} (mem : c ∈ n.children) : Everywhere P c.node := by
  cases h with
  | node _ rest => exact rest c mem

theorem inside (h : Everywhere P n) (held : n.Holds m) : Everywhere P m := by
  induction held with
  | self => exact h
  | inside mem _ ih => exact ih (h.child mem)

theorem of_holds (h : Everywhere P n) (held : n.Holds m) : P m := (h.inside held).here

end Everywhere
end Node
end FlowScript
