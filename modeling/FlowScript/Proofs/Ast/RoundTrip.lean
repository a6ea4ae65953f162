import FlowScript.Proofs.Ast.Written
import Mathlib.Data.List.ReduceOption

/-!
# Trees are read back

Every part of a tree is read back from what is written for it when its children are, so every tree is.
-/

namespace FlowScript

open Json (ReadsBack)

/-- A node is read back from what is written for it. -/
def Node.ReadsBack : Node → Prop
  | expr e => Json.ReadsBack Expr.read? Expr.toJson e
  | pattern p => Json.ReadsBack Pattern.read? Pattern.toJson p
  | stmt s => Json.ReadsBack Stmt.read? Stmt.toJson s
  | declarator d => Json.ReadsBack Declarator.read? Declarator.toJson d
  | function f => Json.ReadsBack Function.read? Function.toJson f
  | catchClause c => Json.ReadsBack CatchClause.read? CatchClause.toJson c
  | switchCase c => Json.ReadsBack SwitchCase.read? SwitchCase.toJson c

/-! ## Null stands for no node -/

theorem Expr.read?_null (n : Nat) : read? n .null = none := by
  cases n <;> rfl

theorem Pattern.read?_null (n : Nat) : read? n .null = none := by
  cases n <;> rfl

theorem Stmt.read?_null (n : Nat) : read? n .null = none := by
  cases n <;> rfl

theorem ForInit.read?_null (n : Nat) : read? n .null = none := by
  cases n <;> rfl

theorem CatchClause.read?_null (n : Nat) : read? n .null = none := by
  cases n <;> rfl

/-! ## Parts that are no nodes -/

theorem PropKey.readsBack : ∀ key : PropKey, (∀ c ∈ key.children, c.node.ReadsBack) → ReadsBack read? toJson key
  | .ident text, _ | .str text, _ | .num text, _ => by
    refine .of_node (by rw [toJson]) fun n deep => ?_
    simp [read?]
  | .computed e, children => by
    have inner : Json.ReadsBack Expr.read? Expr.toJson e := children (.expr .assign e) (List.mem_singleton_self _)
    refine .of_node (by rw [toJson]) fun n deep => ?_
    simp [read?, inner.member "expr" deep (by simp)]

theorem ArrowBody.readsBack : ∀ body : ArrowBody, (∀ c ∈ body.children, c.node.ReadsBack) → ReadsBack read? toJson body
  | .block body, children => by
    have stmts : ∀ s ∈ body, ReadsBack Stmt.read? Stmt.toJson s := by
      simpa [ArrowBody.children, Node.ReadsBack] using children
    refine .of_node (by rw [toJson, stmtsToJson_eq]) fun n deep => ?_
    simp [read?, (ReadsBack.list stmts).member "body" deep (by simp)]
  | .expr e, children => by
    have inner : ReadsBack Expr.read? Expr.toJson e := by simpa [ArrowBody.children, Node.ReadsBack] using children
    refine .of_node (by rw [toJson]) fun n deep => ?_
    simp [read?, inner.member "expr" deep (by simp)]

theorem ObjectProp.readsBack : ∀ prop : ObjectProp, (∀ c ∈ prop.children, c.node.ReadsBack) → ReadsBack read? toJson prop
  | .keyValue key value, children => by
    obtain ⟨keys, values⟩ : (∀ c ∈ key.children, c.node.ReadsBack) ∧ ReadsBack Expr.read? Expr.toJson value := by
      simpa [ObjectProp.children, Node.ReadsBack, or_imp, forall_and] using children
    refine .of_node (by rw [toJson]) fun n deep => ?_
    simp [read?, (key.readsBack keys).member "key" deep (by simp), values.member "value" deep (by simp)]
  | .shorthand name default, children => by
    have defaults : ∀ e ∈ default, ReadsBack Expr.read? Expr.toJson e := by
      simpa [ObjectProp.children, Child.optional, Node.ReadsBack] using children
    refine .of_node (by rw [toJson, optionToJson_eq]) fun n deep => ?_
    simp [read?, (ReadsBack.nullable Expr.read?_null defaults).member "default" deep (by simp)]
  | .method key func, children => by
    obtain ⟨keys, inner⟩ : (∀ c ∈ key.children, c.node.ReadsBack) ∧ ReadsBack Function.read? Function.toJson func := by
      simpa [ObjectProp.children, Node.ReadsBack, or_imp, forall_and] using children
    refine .of_node (by rw [toJson]) fun n deep => ?_
    simp [read?, (key.readsBack keys).member "key" deep (by simp), inner.member "func" deep (by simp)]
  | .spread arg, children => by
    have inner : ReadsBack Expr.read? Expr.toJson arg := by simpa [ObjectProp.children, Node.ReadsBack] using children
    refine .of_node (by rw [toJson]) fun n deep => ?_
    simp [read?, inner.member "arg" deep (by simp)]

theorem PatternProp.readsBack :
    ∀ prop : PatternProp, (∀ c ∈ prop.children, c.node.ReadsBack) → ReadsBack read? toJson prop
  | .keyValue key value, children => by
    obtain ⟨keys, values⟩ : (∀ c ∈ key.children, c.node.ReadsBack) ∧ ReadsBack Pattern.read? Pattern.toJson value := by
      simpa [PatternProp.children, Node.ReadsBack, or_imp, forall_and] using children
    refine .of_node (by rw [toJson]) fun n deep => ?_
    simp [read?, (key.readsBack keys).member "key" deep (by simp), values.member "value" deep (by simp)]
  | .shorthand name default, children => by
    have defaults : ∀ e ∈ default, ReadsBack Expr.read? Expr.toJson e := by
      simpa [PatternProp.children, Child.optional, Node.ReadsBack] using children
    refine .of_node (by rw [toJson, optionToJson_eq]) fun n deep => ?_
    simp [read?, (ReadsBack.nullable Expr.read?_null defaults).member "default" deep (by simp)]
  | .rest arg, children => by
    have inner : ReadsBack Pattern.read? Pattern.toJson arg := by
      simpa [PatternProp.children, Node.ReadsBack] using children
    refine .of_node (by rw [toJson]) fun n deep => ?_
    simp [read?, inner.member "arg" deep (by simp)]

theorem ForInit.readsBack : ∀ init : ForInit, (∀ c ∈ init.children, c.node.ReadsBack) → ReadsBack read? toJson init
  | .decl kind declarations, children => by
    have each : ∀ d ∈ declarations, ReadsBack Declarator.read? Declarator.toJson d := by
      simpa [ForInit.children, Node.ReadsBack] using children
    refine .of_node (by rw [toJson, declaratorsToJson_eq]) fun n deep => ?_
    simp [read?, (ReadsBack.list each).member "declarations" deep (by simp)]
  | .expr e, children => by
    have inner : ReadsBack Expr.read? Expr.toJson e := by simpa [ForInit.children, Node.ReadsBack] using children
    refine .of_node (by rw [toJson]) fun n deep => ?_
    simp [read?, inner.member "expr" deep (by simp)]

theorem ForHead.readsBack : ∀ head : ForHead, (∀ c ∈ head.children, c.node.ReadsBack) → ReadsBack read? toJson head
  | .decl kind binding, children => by
    have inner : ReadsBack Pattern.read? Pattern.toJson binding := by
      simpa [ForHead.children, Node.ReadsBack] using children
    refine .of_node (by rw [toJson]) fun n deep => ?_
    simp [read?, inner.member "target" deep (by simp)]
  | .target e, children => by
    have inner : ReadsBack Expr.read? Expr.toJson e := by simpa [ForHead.children, Node.ReadsBack] using children
    refine .of_node (by rw [toJson]) fun n deep => ?_
    simp [read?, inner.member "expr" deep (by simp)]

/-! ## Nodes -/

theorem Function.readsBack :
    ∀ f : Function, f.span.Sized → (∀ c ∈ f.children, c.node.ReadsBack) → ReadsBack read? toJson f
  | .mk name isAsync params body span, sized, children => by
    obtain ⟨inputs, stmts⟩ :
        (∀ p ∈ params, ReadsBack Pattern.read? Pattern.toJson p) ∧ ∀ s ∈ body, ReadsBack Stmt.read? Stmt.toJson s := by
      simpa [Function.children, Node.ReadsBack, or_imp, forall_and] using children
    refine .of_record span (by rw [toJson, patternsToJson_eq, stmtsToJson_eq]) sized fun n deep at_ => ?_
    simp [read?, at_, (ReadsBack.list inputs).member "params" deep (by simp),
      (ReadsBack.list stmts).member "body" deep (by simp)]

theorem Declarator.readsBack :
    ∀ d : Declarator, d.span.Sized → (∀ c ∈ d.children, c.node.ReadsBack) → ReadsBack read? toJson d
  | .mk target init span, sized, children => by
    obtain ⟨targets, values⟩ :
        ReadsBack Pattern.read? Pattern.toJson target ∧ ∀ e ∈ init, ReadsBack Expr.read? Expr.toJson e := by
      simpa [Declarator.children, Child.optional, Node.ReadsBack, or_imp, forall_and] using children
    refine .of_record span (by rw [toJson, optionToJson_eq]) sized fun n deep at_ => ?_
    simp [read?, at_, targets.member "target" deep (by simp),
      (ReadsBack.nullable Expr.read?_null values).member "init" deep (by simp)]

theorem CatchClause.readsBack :
    ∀ c : CatchClause, c.span.Sized → (∀ d ∈ c.children, d.node.ReadsBack) → ReadsBack read? toJson c
  | .mk param body span, sized, children => by
    obtain ⟨inputs, stmts⟩ :
        (∀ p ∈ param, ReadsBack Pattern.read? Pattern.toJson p) ∧ ∀ s ∈ body, ReadsBack Stmt.read? Stmt.toJson s := by
      simpa [CatchClause.children, Node.ReadsBack, or_imp, forall_and] using children
    refine .of_record span (toJson_mk param body span) sized fun n deep at_ => ?_
    simp [read?, at_, (ReadsBack.nullable Pattern.read?_null inputs).member "param" deep (by simp),
      (ReadsBack.list stmts).member "body" deep (by simp)]

theorem SwitchCase.readsBack :
    ∀ c : SwitchCase, c.span.Sized → (∀ d ∈ c.children, d.node.ReadsBack) → ReadsBack read? toJson c
  | .mk test body span, sized, children => by
    obtain ⟨tests, stmts⟩ :
        (∀ e ∈ test, ReadsBack Expr.read? Expr.toJson e) ∧ ∀ s ∈ body, ReadsBack Stmt.read? Stmt.toJson s := by
      simpa [SwitchCase.children, Child.optional, Node.ReadsBack, or_imp, forall_and] using children
    refine .of_record span (by rw [toJson, optionToJson_eq, stmtsToJson_eq]) sized fun n deep at_ => ?_
    simp [read?, at_, (ReadsBack.nullable Expr.read?_null tests).member "test" deep (by simp),
      (ReadsBack.list stmts).member "body" deep (by simp)]

theorem Pattern.readsBack :
    ∀ p : Pattern, p.span.Sized → (∀ c ∈ p.children, c.node.ReadsBack) → ReadsBack read? toJson p
  | .ident name span, sized, _ => by
    refine .of_spanned span (by rw [toJson]) sized fun n deep at_ => ?_
    simp [read?, at_]
  | .object props span, sized, children => by
    have each : ∀ prop ∈ props, ReadsBack PatternProp.read? PatternProp.toJson prop := fun prop mem =>
      prop.readsBack fun c inside => children c (List.mem_flatMap.2 ⟨prop, mem, inside⟩)
    refine .of_spanned span (by rw [toJson, patternPropsToJson_eq]) sized fun n deep at_ => ?_
    simp [read?, at_, (ReadsBack.list each).member "props" deep (by simp)]
  | .array elements span, sized, children => by
    have present : ∀ p, some p ∈ elements → ReadsBack read? toJson p := by
      simpa [Pattern.children, Node.ReadsBack, List.reduceOption_mem_iff] using children
    have each : ∀ slot ∈ elements, ReadsBack (fun n => Json.nullable? (read? n)) (Json.ofOption toJson) slot := by
      intro slot mem
      refine .nullable read?_null fun p there => present p ?_
      rwa [← Option.mem_def.1 there]
    refine .of_spanned span (by rw [toJson, patternSlotsToJson_eq]) sized fun n deep at_ => ?_
    simp [read?, at_, (ReadsBack.list each).member "elements" deep (by simp)]
  | .rest arg span, sized, children => by
    have inner : ReadsBack read? toJson arg := by simpa [Pattern.children, Node.ReadsBack] using children
    refine .of_spanned span (by rw [toJson]) sized fun n deep at_ => ?_
    simp [read?, at_, inner.member "arg" deep (by simp)]
  | .assign target default span, sized, children => by
    obtain ⟨targets, defaults⟩ : ReadsBack read? toJson target ∧ ReadsBack Expr.read? Expr.toJson default := by
      simpa [Pattern.children, Node.ReadsBack] using children
    refine .of_spanned span (by rw [toJson]) sized fun n deep at_ => ?_
    simp [read?, at_, targets.member "target" deep (by simp), defaults.member "default" deep (by simp)]

theorem Expr.readsBack :
    ∀ e : Expr, e.span.Sized → (∀ c ∈ e.children, c.node.ReadsBack) → ReadsBack read? toJson e
  | .ident text span, sized, _ | .num text span, sized, _ | .regex text span, sized, _ => by
    refine .of_spanned span (by rw [toJson]) sized fun n deep at_ => ?_
    -- The reader goes by the tag, which is known here; it is evaluated as far as the first member that it reads.
    show (Span.ofMember? _).bind _ = _
    simp [at_]
  | .this span, sized, _ | .null span, sized, _ | .str raw value span, sized, _ | .bool value span, sized, _ => by
    refine .of_spanned span (by rw [toJson]) sized fun n deep at_ => ?_
    show (Span.ofMember? _).bind _ = _
    simp [at_]
  | .template quasis exprs span, sized, children => by
    have each : ∀ e ∈ exprs, ReadsBack read? toJson e := by simpa [Expr.children, Node.ReadsBack] using children
    refine .of_spanned span (by rw [toJson, exprsToJson_eq]) sized fun n deep at_ => ?_
    show (Json.field? _ "quasis" _).bind _ = _
    simp [at_, (ReadsBack.list each).member "exprs" deep (by simp)]
  | .taggedTemplate tag quasi span, sized, children => by
    obtain ⟨tags, quasis⟩ : ReadsBack read? toJson tag ∧ ReadsBack read? toJson quasi := by
      simpa [Expr.children, Node.ReadsBack] using children
    refine .of_spanned span (by rw [toJson]) sized fun n deep at_ => ?_
    show (Json.field? _ "tag" _).bind _ = _
    simp [at_, tags.member "tag" deep (by simp), quasis.member "quasi" deep (by simp)]
  | .array elements span, sized, children => by
    have present : ∀ e, some e ∈ elements → ReadsBack read? toJson e := by
      simpa [Expr.children, Node.ReadsBack, List.reduceOption_mem_iff] using children
    have each : ∀ slot ∈ elements, ReadsBack (fun n => Json.nullable? (read? n)) (Json.ofOption toJson) slot := by
      intro slot mem
      refine .nullable read?_null fun e there => present e ?_
      rwa [← Option.mem_def.1 there]
    refine .of_spanned span (by rw [toJson, slotsToJson_eq]) sized fun n deep at_ => ?_
    show (Json.field? _ "elements" _).bind _ = _
    simp [at_, (ReadsBack.list each).member "elements" deep (by simp)]
  | .object props span, sized, children => by
    have each : ∀ prop ∈ props, ReadsBack ObjectProp.read? ObjectProp.toJson prop := fun prop mem =>
      prop.readsBack fun c inside => children c (List.mem_flatMap.2 ⟨prop, mem, inside⟩)
    refine .of_spanned span (by rw [toJson, objectPropsToJson_eq]) sized fun n deep at_ => ?_
    show (Json.field? _ "props" _).bind _ = _
    simp [at_, (ReadsBack.list each).member "props" deep (by simp)]
  | .spread arg span, sized, children | .await arg span, sized, children => by
    have inner : ReadsBack read? toJson arg := by simpa [Expr.children, Node.ReadsBack] using children
    refine .of_spanned span (by rw [toJson]) sized fun n deep at_ => ?_
    show (Json.field? _ "arg" _).bind _ = _
    simp [at_, inner.member "arg" deep (by simp)]
  | .unary op arg span, sized, children | .update op before arg span, sized, children => by
    have inner : ReadsBack read? toJson arg := by simpa [Expr.children, Node.ReadsBack] using children
    refine .of_spanned span (by rw [toJson]) sized fun n deep at_ => ?_
    show (Json.field? _ "op" _).bind _ = _
    simp [at_, inner.member "arg" deep (by simp)]
  | .function func span, sized, children => by
    have inner : ReadsBack Function.read? Function.toJson func := by
      simpa [Expr.children, Node.ReadsBack] using children
    refine .of_spanned span (by rw [toJson]) sized fun n deep at_ => ?_
    show (Json.field? _ "func" _).bind _ = _
    simp [at_, inner.member "func" deep (by simp)]
  | .arrow isAsync params body span, sized, children => by
    obtain ⟨inputs, bodies⟩ :
        (∀ p ∈ params, ReadsBack Pattern.read? Pattern.toJson p) ∧ ∀ c ∈ body.children, c.node.ReadsBack := by
      simpa [Expr.children, Node.ReadsBack, or_imp, forall_and] using children
    refine .of_spanned span (by rw [toJson, patternsToJson_eq]) sized fun n deep at_ => ?_
    show (Json.field? _ "params" _).bind _ = _
    simp [at_, (ReadsBack.list inputs).member "params" deep (by simp),
      (body.readsBack bodies).member "body" deep (by simp)]
  | .binary op left right span, sized, children => by
    obtain ⟨first, second⟩ : ReadsBack read? toJson left ∧ ReadsBack read? toJson right := by
      simpa [Expr.children, Node.ReadsBack] using children
    refine .of_spanned span (by rw [toJson]) sized fun n deep at_ => ?_
    show (Json.field? _ "op" _).bind _ = _
    simp [at_, first.member "left" deep (by simp), second.member "right" deep (by simp)]
  | .assign op target value span, sized, children => by
    obtain ⟨targets, values⟩ : ReadsBack read? toJson target ∧ ReadsBack read? toJson value := by
      simpa [Expr.children, Node.ReadsBack] using children
    refine .of_spanned span (by rw [toJson]) sized fun n deep at_ => ?_
    show (Json.field? _ "target" _).bind _ = _
    simp [at_, targets.member "target" deep (by simp), values.member "value" deep (by simp)]
  | .conditional test consequent alternate span, sized, children => by
    obtain ⟨first, second, third⟩ :
        ReadsBack read? toJson test ∧ ReadsBack read? toJson consequent ∧ ReadsBack read? toJson alternate := by
      simpa [Expr.children, Node.ReadsBack] using children
    refine .of_spanned span (by rw [toJson]) sized fun n deep at_ => ?_
    show (Json.field? _ "test" _).bind _ = _
    simp [at_, first.member "test" deep (by simp), second.member "consequent" deep (by simp),
      third.member "alternate" deep (by simp)]
  | .call callee args optional span, sized, children => by
    obtain ⟨callees, each⟩ : ReadsBack read? toJson callee ∧ ∀ e ∈ args, ReadsBack read? toJson e := by
      simpa [Expr.children, Node.ReadsBack] using children
    refine .of_spanned span (by rw [toJson, exprsToJson_eq]) sized fun n deep at_ => ?_
    show (Json.field? _ "callee" _).bind _ = _
    simp [at_, callees.member "callee" deep (by simp),
      (ReadsBack.list each).member "args" deep (by simp)]
  | .new callee args span, sized, children => by
    obtain ⟨callees, each⟩ : ReadsBack read? toJson callee ∧ ∀ e ∈ args.getD [], ReadsBack read? toJson e := by
      simpa [Expr.children, Node.ReadsBack] using children
    have inner : ReadsBack (fun n => Json.nullable? (Json.list? (read? n)))
        (Json.ofOption fun args => .arr (args.map toJson)) args := by
      refine .nullable (fun _ => rfl) fun es there => .list fun e mem => each e ?_
      rwa [Option.mem_def.1 there]
    refine .of_spanned span (toJson_new callee args span) sized fun n deep at_ => ?_
    show (Json.field? _ "callee" _).bind _ = _
    simp [at_, callees.member "callee" deep (by simp), inner.member "args" deep (by simp)]
  | .member holder property optional span, sized, children => by
    have inner : ReadsBack read? toJson holder := by simpa [Expr.children, Node.ReadsBack] using children
    refine .of_spanned span (by rw [toJson]) sized fun n deep at_ => ?_
    show (Json.field? _ "object" _).bind _ = _
    simp [at_, inner.member "object" deep (by simp)]
  | .index holder place optional span, sized, children => by
    obtain ⟨first, second⟩ : ReadsBack read? toJson holder ∧ ReadsBack read? toJson place := by
      simpa [Expr.children, Node.ReadsBack] using children
    refine .of_spanned span (by rw [toJson]) sized fun n deep at_ => ?_
    show (Json.field? _ "object" _).bind _ = _
    simp [at_, first.member "object" deep (by simp), second.member "index" deep (by simp)]
  | .sequence exprs span, sized, children => by
    have each : ∀ e ∈ exprs, ReadsBack read? toJson e := by simpa [Expr.children, Node.ReadsBack] using children
    refine .of_spanned span (by rw [toJson, exprsToJson_eq]) sized fun n deep at_ => ?_
    show (Json.field? _ "exprs" _).bind _ = _
    simp [at_, (ReadsBack.list each).member "exprs" deep (by simp)]
  | .paren e span, sized, children => by
    have inner : ReadsBack read? toJson e := by simpa [Expr.children, Node.ReadsBack] using children
    refine .of_spanned span (by rw [toJson]) sized fun n deep at_ => ?_
    show (Json.field? _ "expr" _).bind _ = _
    simp [at_, inner.member "expr" deep (by simp)]

theorem Stmt.readsBack :
    ∀ s : Stmt, s.span.Sized → (∀ c ∈ s.children, c.node.ReadsBack) → ReadsBack read? toJson s
  | .block body span, sized, children => by
    have each : ∀ s ∈ body, ReadsBack read? toJson s := by simpa [Stmt.children, Node.ReadsBack] using children
    refine .of_spanned span (by rw [toJson, stmtsToJson_eq]) sized fun n deep at_ => ?_
    show (Json.field? _ "body" _).bind _ = _
    simp [at_, (ReadsBack.list each).member "body" deep (by simp)]
  | .empty span, sized, _ | .break span, sized, _ | .continue span, sized, _ | .typeOnly keyword name span, sized, _ => by
    refine .of_spanned span (by rw [toJson]) sized fun n deep at_ => ?_
    show (Span.ofMember? _).bind _ = _
    simp [at_]
  | .importDecl clause source span, sized, _ => by
    refine .of_spanned span (by rw [toJson]) sized fun n deep at_ => ?_
    show (Json.optional? _ "clause" _).bind _ = _
    simp [at_]
  | .varDecl kind declarations span, sized, children => by
    have each : ∀ d ∈ declarations, ReadsBack Declarator.read? Declarator.toJson d := by
      simpa [Stmt.children, Node.ReadsBack] using children
    refine .of_spanned span (by rw [toJson, declaratorsToJson_eq]) sized fun n deep at_ => ?_
    show (Json.field? _ "kind" _).bind _ = _
    simp [at_, (ReadsBack.list each).member "declarations" deep (by simp)]
  | .function func span, sized, children => by
    have inner : ReadsBack Function.read? Function.toJson func := by
      simpa [Stmt.children, Node.ReadsBack] using children
    refine .of_spanned span (by rw [toJson]) sized fun n deep at_ => ?_
    show (Json.field? _ "func" _).bind _ = _
    simp [at_, inner.member "func" deep (by simp)]
  | .ifElse test consequent alternate span, sized, children => by
    obtain ⟨first, second, third⟩ :
        (∀ e ∈ test, ReadsBack Expr.read? Expr.toJson e) ∧ ReadsBack read? toJson consequent ∧
          ∀ s ∈ alternate, ReadsBack read? toJson s := by
      simpa [Stmt.children, Child.optional, Node.ReadsBack, or_imp, forall_and] using children
    refine .of_spanned span (toJson_ifElse test consequent alternate span) sized fun n deep at_ => ?_
    show (Json.optional? _ "test" _).bind _ = _
    simp [at_, (ReadsBack.nullable Expr.read?_null first).member "test" deep (by simp),
      second.member "consequent" deep (by simp),
      (ReadsBack.nullable read?_null third).member "alternate" deep (by simp)]
  | .for init test update body span, sized, children => by
    have inits : ∀ i ∈ init, ReadsBack ForInit.read? ForInit.toJson i := by
      rintro i rfl
      exact i.readsBack fun c inside => children c (by simp [Stmt.children, inside])
    have tests : ∀ e ∈ test, ReadsBack Expr.read? Expr.toJson e := fun e there =>
      children (.expr .sequence e) (by simp [Stmt.children, Child.optional, Option.mem_def.1 there])
    have updates : ∀ e ∈ update, ReadsBack Expr.read? Expr.toJson e := fun e there =>
      children (.expr .sequence e) (by simp [Stmt.children, Child.optional, Option.mem_def.1 there])
    have inner : ReadsBack read? toJson body := children (.stmt body) (by simp [Stmt.children])
    refine .of_spanned span (toJson_for init test update body span) sized fun n deep at_ => ?_
    show (Json.optional? _ "init" _).bind _ = _
    simp [at_, (ReadsBack.nullable ForInit.read?_null inits).member "init" deep (by simp),
      (ReadsBack.nullable Expr.read?_null tests).member "test" deep (by simp),
      (ReadsBack.nullable Expr.read?_null updates).member "update" deep (by simp),
      inner.member "body" deep (by simp)]
  | .forEach kind isAwait left right body span, sized, children => by
    have head := left.readsBack fun c inside => children c (by simp [Stmt.children, inside])
    obtain ⟨-, values, inner⟩ :
        (∀ c ∈ left.children, c.node.ReadsBack) ∧ ReadsBack Expr.read? Expr.toJson right ∧
          ReadsBack read? toJson body := by
      simpa [Stmt.children, Node.ReadsBack, or_imp, forall_and] using children
    refine .of_spanned span (by rw [toJson]) sized fun n deep at_ => ?_
    show (Json.field? _ "kind" _).bind _ = _
    simp [at_, head.member "left" deep (by simp), values.member "right" deep (by simp),
      inner.member "body" deep (by simp)]
  | .while test body span, sized, children => by
    obtain ⟨tests, inner⟩ : (∀ e ∈ test, ReadsBack Expr.read? Expr.toJson e) ∧ ReadsBack read? toJson body := by
      simpa [Stmt.children, Child.optional, Node.ReadsBack, or_imp, forall_and] using children
    refine .of_spanned span (by rw [toJson, optionToJson_eq]) sized fun n deep at_ => ?_
    show (Json.optional? _ "test" _).bind _ = _
    simp [at_, (ReadsBack.nullable Expr.read?_null tests).member "test" deep (by simp),
      inner.member "body" deep (by simp)]
  | .doWhile body test span, sized, children => by
    obtain ⟨inner, tests⟩ : ReadsBack read? toJson body ∧ ∀ e ∈ test, ReadsBack Expr.read? Expr.toJson e := by
      simpa [Stmt.children, Child.optional, Node.ReadsBack, or_imp, forall_and] using children
    refine .of_spanned span (by rw [toJson, optionToJson_eq]) sized fun n deep at_ => ?_
    show (Json.field? _ "body" _).bind _ = _
    simp [at_, inner.member "body" deep (by simp),
      (ReadsBack.nullable Expr.read?_null tests).member "test" deep (by simp)]
  | .try tried handler finalizer span, sized, children => by
    have first : ∀ s ∈ tried, ReadsBack read? toJson s := fun s mem =>
      children (.stmt s) (by simpa [Stmt.children] using .inl ⟨s, mem, rfl⟩)
    have handlers : ∀ c ∈ handler, ReadsBack CatchClause.read? CatchClause.toJson c := fun c there =>
      children ⟨.other, .catchClause c⟩ (by simp [Stmt.children, Option.mem_def.1 there])
    have last : ReadsBack (fun n => Json.nullable? (Json.list? (read? n)))
        (Json.ofOption fun body => .arr (body.map toJson)) finalizer := by
      refine .nullable (fun _ => rfl) fun body there => .list fun s mem => ?_
      exact children (.stmt s) (by simpa [Stmt.children, Option.mem_def.1 there] using .inr (.inr ⟨s, mem, rfl⟩))
    refine .of_spanned span (toJson_try tried handler finalizer span) sized fun n deep at_ => ?_
    show (Json.field? _ "block" _).bind _ = _
    simp [at_, (ReadsBack.list first).member "block" deep (by simp),
      (ReadsBack.nullable CatchClause.read?_null handlers).member "handler" deep (by simp),
      last.member "finalizer" deep (by simp)]
  | .switch discriminant cases span, sized, children => by
    obtain ⟨inner, each⟩ :
        ReadsBack Expr.read? Expr.toJson discriminant ∧
          ∀ c ∈ cases, ReadsBack SwitchCase.read? SwitchCase.toJson c := by
      simpa [Stmt.children, Node.ReadsBack] using children
    refine .of_spanned span (by rw [toJson, casesToJson_eq]) sized fun n deep at_ => ?_
    show (Json.field? _ "discriminant" _).bind _ = _
    simp [at_, inner.member "discriminant" deep (by simp),
      (ReadsBack.list each).member "cases" deep (by simp)]
  | .ret value span, sized, children => by
    have values : ∀ e ∈ value, ReadsBack Expr.read? Expr.toJson e := by
      simpa [Stmt.children, Child.optional, Node.ReadsBack] using children
    refine .of_spanned span (by rw [toJson, optionToJson_eq]) sized fun n deep at_ => ?_
    show (Json.optional? _ "value" _).bind _ = _
    simp [at_, (ReadsBack.nullable Expr.read?_null values).member "value" deep (by simp)]
  | .throw value span, sized, children => by
    have inner : ReadsBack Expr.read? Expr.toJson value := by simpa [Stmt.children, Node.ReadsBack] using children
    refine .of_spanned span (by rw [toJson]) sized fun n deep at_ => ?_
    show (Json.field? _ "value" _).bind _ = _
    simp [at_, inner.member "value" deep (by simp)]
  | .expr e span, sized, children => by
    have inner : ReadsBack Expr.read? Expr.toJson e := by simpa [Stmt.children, Node.ReadsBack] using children
    refine .of_spanned span (by rw [toJson]) sized fun n deep at_ => ?_
    show (Json.field? _ "expr" _).bind _ = _
    simp [at_, inner.member "expr" deep (by simp)]
  | .exportDecl declaration clause isDefault span, sized, children => by
    have inner : ∀ s ∈ declaration, ReadsBack read? toJson s := by simpa [Stmt.children, Node.ReadsBack] using children
    refine .of_spanned span (toJson_exportDecl declaration clause isDefault span) sized fun n deep at_ => ?_
    show (Json.optional? _ "declaration" _).bind _ = _
    simp [at_, (ReadsBack.nullable read?_null inner).member "declaration" deep (by simp)]

/-! ## Trees -/

/-- Whether the numbers of all spans in a node are in the range of sizes. -/
def Node.Sized (n : Node) : Prop := n.Everywhere fun m => m.span.Sized

theorem Node.sized_iff {n : Node} : n.Sized ↔ n.span.Sized ∧ ∀ c ∈ n.children, c.node.Sized := by
  constructor
  · intro sized
    exact ⟨sized.here, fun c mem => sized.child mem⟩
  · rintro ⟨here, inner⟩
    exact .node here inner

theorem Node.readsBack {n : Node} (sized : n.Sized) : n.ReadsBack := by
  induction sized with
  | @node n here _ ih =>
    cases n with
    | expr e => exact e.readsBack here ih
    | pattern p => exact p.readsBack here ih
    | stmt s => exact s.readsBack here ih
    | declarator d => exact d.readsBack here ih
    | function f => exact f.readsBack here ih
    | catchClause c => exact c.readsBack here ih
    | switchCase c => exact c.readsBack here ih

theorem Stmt.ofJson?_toJson {s : Stmt} (sized : (Node.stmt s).Sized) : ofJson? s.toJson = some s := by
  obtain ⟨form, mark⟩ := s.mark?_toJson
  rw [ofJson?, mark, Option.bind_some, Json.str?_str, Option.bind_some]
  exact Node.readsBack sized _ (Nat.le_refl _)

/-- Trees and all that they are made of are read back from what is written for them, if the numbers of all spans are in
    the range of sizes: statements as they stand alone, and every part with whatever bound allows for its depth. -/
theorem readsBack_of_sized :
    (∀ s : Stmt, (Node.stmt s).Sized → Stmt.ofJson? s.toJson = some s) ∧
      (∀ n : Node, n.Sized → n.ReadsBack) ∧
      (∀ b : ArrowBody, (∀ c ∈ b.children, c.node.Sized) → ReadsBack ArrowBody.read? ArrowBody.toJson b) ∧
      (∀ p : ObjectProp, (∀ c ∈ p.children, c.node.Sized) → ReadsBack ObjectProp.read? ObjectProp.toJson p) ∧
      (∀ k : PropKey, (∀ c ∈ k.children, c.node.Sized) → ReadsBack PropKey.read? PropKey.toJson k) ∧
      (∀ p : PatternProp, (∀ c ∈ p.children, c.node.Sized) → ReadsBack PatternProp.read? PatternProp.toJson p) ∧
      (∀ i : ForInit, (∀ c ∈ i.children, c.node.Sized) → ReadsBack ForInit.read? ForInit.toJson i) ∧
      (∀ h : ForHead, (∀ c ∈ h.children, c.node.Sized) → ReadsBack ForHead.read? ForHead.toJson h) ∧
      (∀ span : Span, span.Sized → Span.ofJson? span.toJson = some span) ∧
      (∀ op : BinaryOp, named? BinaryOp.ofName? (.str op.name) = some op) ∧
      (∀ op : UnaryOp, named? UnaryOp.ofName? (.str op.name) = some op) ∧
      (∀ op : UpdateOp, named? UpdateOp.ofName? (.str op.name) = some op) ∧
      (∀ kind : VarKind, named? VarKind.ofWord? (.str kind.word) = some kind) ∧
      ∀ kind : ForLoopKind, named? ForLoopKind.ofWord? (.str kind.word) = some kind := by
  refine ⟨fun s sized => Stmt.ofJson?_toJson sized, fun n sized => Node.readsBack sized, ?_, ?_, ?_, ?_, ?_, ?_,
    fun span sized => Span.ofJson?_toJson sized, named?_binaryOp, named?_unaryOp, named?_updateOp, named?_varKind,
    named?_forLoopKind⟩
  · exact fun b sized => b.readsBack fun c mem => Node.readsBack (sized c mem)
  · exact fun p sized => p.readsBack fun c mem => Node.readsBack (sized c mem)
  · exact fun k sized => k.readsBack fun c mem => Node.readsBack (sized c mem)
  · exact fun p sized => p.readsBack fun c mem => Node.readsBack (sized c mem)
  · exact fun i sized => i.readsBack fun c mem => Node.readsBack (sized c mem)
  · exact fun h sized => h.readsBack fun c mem => Node.readsBack (sized c mem)

/-- A declaration whose target has a hole and whose span is left out: `const [, a] = [, null];`. -/
private def holes : Stmt := .varDecl .const [.mk target (some init) .none] .none
where
  target : Pattern := .array [none, some (.ident "a" (at_ 9 10))] (at_ 6 11)
  init : Expr := .array [none, some (.null (at_ 17 21))] (at_ 14 22)
  at_ (start stop : Nat) : Span := ⟨⟨start, 0, start⟩, ⟨stop, 0, stop⟩⟩

theorem readsBack_of_sized_holes : Stmt.ofJson? holes.toJson = some holes := by
  have name : (Node.pattern (.ident "a" (holes.at_ 9 10))).Sized := by
    refine Node.sized_iff.2 ⟨by decide, ?_⟩
    simp [Node.children, Pattern.children]
  have target : (Node.pattern holes.target).Sized := by
    refine Node.sized_iff.2 ⟨by decide, ?_⟩
    simpa [Node.children, holes.target, Pattern.children] using name
  have null : (Node.expr (.null (holes.at_ 17 21))).Sized := by
    refine Node.sized_iff.2 ⟨by decide, ?_⟩
    simp [Node.children, Expr.children]
  have init : (Node.expr holes.init).Sized := by
    refine Node.sized_iff.2 ⟨by decide, ?_⟩
    simpa [Node.children, holes.init, Expr.children] using null
  have binding : (Node.declarator (.mk holes.target (some holes.init) .none)).Sized := by
    refine Node.sized_iff.2 ⟨by decide, ?_⟩
    simpa [Node.children, Declarator.children, Child.optional] using ⟨target, init⟩
  have sized : (Node.stmt holes).Sized := by
    refine Node.sized_iff.2 ⟨by decide, ?_⟩
    simpa [Node.children, holes, Stmt.children] using binding
  exact readsBack_of_sized.1 holes sized

end FlowScript
