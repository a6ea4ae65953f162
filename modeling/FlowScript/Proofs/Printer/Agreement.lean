import FlowScript.Printer.Basic

/-!
# Code that two printers print alike

A relation between texts that holds of equal texts, of texts put together, and of what two printers put into the code of
a tree where they may differ (line breaks, the gaps of object literals, signs before an operand) holds of the code of
every tree. `Printer.Agreement` is such a relation; the induction over the trees is done here for all of them.
-/

namespace FlowScript

/-- A relation between the texts of two printers that printing keeps. -/
structure Printer.Agreement (p q : Printer) where
  Rel : String → String → Prop
  refl (a : String) : Rel a a
  append {a b c d : String} (front : Rel a b) (back : Rel c d) : Rel (a ++ c) (b ++ d)
  newline (i j : Nat) : Rel (p.style.newline i) (q.style.newline j)
  objectBreak (i j : Nat) : Rel (p.objectBreak i) (q.objectBreak j)
  before (op : UnaryOp) {a b : String} (operand : Rel a b) : Rel (op.before a) (op.before b)
  operator (op : BinaryOp) : p.operator op = q.operator op

section
variable {p q : Printer} (agree : p.Agreement q)

namespace Printer.Agreement.Rel
variable {agree} {a b c d : String}

protected theorem refl : agree.Rel a a := agree.refl a

theorem of_eq (same : a = b) : agree.Rel a b := by
  rw [same]
  exact .refl

protected theorem append (front : agree.Rel a b) (back : agree.Rel c d) : agree.Rel (a ++ c) (b ++ d) :=
  agree.append front back

end Printer.Agreement.Rel

open Printer.Agreement (Rel)

-- Each case puts the relation together as the printer puts the text together.
mutual

theorem Expr.print_agree (i j : Nat) : ∀ e : Expr, agree.Rel (e.print p i) (e.print q j)
  | .ident .. | .this _ | .num .. | .str .. | .bool .. | .null _ | .regex .. => by
    exact .refl
  | .template quasis exprs _ => by
    exact (Rel.refl.append (printTemplate_agree i j quasis exprs)).append .refl
  | .taggedTemplate tag quasi _ => by
    exact (tag.print_agree i j).append (quasi.print_agree i j)
  | .array elements _ => by
    exact (Rel.refl.append (printSlots_agree i j elements)).append .refl
  | .object [] _ => by
    exact .refl
  | .object (prop :: props) _ => by
    exact ((Rel.refl.append (printObjectProps_agree (i + 1) (j + 1) (prop :: props))).append
      (agree.objectBreak i j)).append .refl
  | .spread arg _ | .await arg _ | .new arg none _ => by
    exact Rel.refl.append (arg.print_agree i j)
  | .function func _ => by
    exact func.print_agree i j
  | .arrow _ params body _ => by
    exact ((((Rel.refl.append .refl).append (printPatterns_agree i j params)).append .refl).append .refl).append
      (body.print_agree i j)
  | .unary op arg _ => by
    exact agree.before op (arg.print_agree i j)
  | .update _ true arg _ => by
    exact Rel.refl.append (arg.print_agree i j)
  | .update _ false arg _ => by
    exact (arg.print_agree i j).append .refl
  | .binary op left right _ => by
    exact ((((left.print_agree i j).append .refl).append (.of_eq (agree.operator op))).append .refl).append
      (right.print_agree i j)
  | .assign _ left right _ => by
    exact ((((left.print_agree i j).append .refl).append .refl).append .refl).append (right.print_agree i j)
  | .conditional test consequent alternate _ => by
    exact ((((test.print_agree i j).append .refl).append (consequent.print_agree i j)).append .refl).append
      (alternate.print_agree i j)
  | .call callee args _ _ => by
    exact ((((callee.print_agree i j).append .refl).append .refl).append (printExprs_agree i j args)).append .refl
  | .new callee (some args) _ => by
    exact (((Rel.refl.append (callee.print_agree i j)).append .refl).append (printExprs_agree i j args)).append
      .refl
  | .member object _ _ _ => by
    exact ((object.print_agree i j).append .refl).append .refl
  | .index object index _ _ => by
    exact (((object.print_agree i j).append .refl).append (index.print_agree i j)).append .refl
  | .sequence exprs _ => by
    exact printExprs_agree i j exprs
  | .paren expr _ => by
    exact (Rel.refl.append (expr.print_agree i j)).append .refl

theorem printExprs_agree (i j : Nat) :
    ∀ es : List Expr, agree.Rel (printExprs p i es) (printExprs q j es)
  | [] => by
    exact .refl
  | [e] => by
    exact e.print_agree i j
  | e :: f :: es => by
    exact ((e.print_agree i j).append .refl).append (printExprs_agree i j (f :: es))

theorem printTemplate_agree (i j : Nat) (quasis : List String) :
    ∀ es : List Expr, agree.Rel (printTemplate p i quasis es) (printTemplate q j quasis es)
  | [] => by
    exact .refl
  | e :: es => by
    cases quasis with
    | nil =>
      exact .refl
    | cons quasi quasis =>
      exact (((Rel.refl.append .refl).append (e.print_agree i j)).append .refl).append
        (printTemplate_agree i j quasis es)

theorem printSlots_agree (i j : Nat) :
    ∀ es : List (Option Expr), agree.Rel (printSlots p i es) (printSlots q j es)
  | [] | [none] => by
    exact .refl
  | [some e] => by
    exact e.print_agree i j
  | none :: e :: es => by
    exact Rel.refl.append (printSlots_agree i j (e :: es))
  | some e :: f :: es => by
    exact ((e.print_agree i j).append .refl).append (printSlots_agree i j (f :: es))

theorem ArrowBody.print_agree (i j : Nat) :
    ∀ b : ArrowBody, agree.Rel (b.print p i) (b.print q j)
  | .block body => by
    exact printBlock_agree i j body
  | .expr expr => by
    exact expr.print_agree i j

theorem ObjectProp.print_agree (i j : Nat) :
    ∀ x : ObjectProp, agree.Rel (x.print p i) (x.print q j)
  | .keyValue key value => by
    exact ((key.print_agree i j).append .refl).append (value.print_agree i j)
  | .shorthand _ none => by
    exact .refl
  | .shorthand _ (some default) => by
    exact (Rel.refl.append .refl).append (default.print_agree i j)
  | .method key (.mk _ _ params body _) => by
    exact (((((Rel.refl.append (key.print_agree i j)).append .refl).append
      (printPatterns_agree i j params)).append .refl).append .refl).append (printBlock_agree i j body)
  | .spread arg => by
    exact Rel.refl.append (arg.print_agree i j)

theorem printObjectProps_agree (i j : Nat) :
    ∀ ps : List ObjectProp, agree.Rel (printObjectProps p i ps) (printObjectProps q j ps)
  | [] => by
    exact .refl
  | [x] => by
    exact (agree.objectBreak i j).append (x.print_agree i j)
  | x :: y :: xs => by
    exact (((agree.objectBreak i j).append (x.print_agree i j)).append .refl).append
      (printObjectProps_agree i j (y :: xs))

theorem PropKey.print_agree (i j : Nat) : ∀ k : PropKey, agree.Rel (k.print p i) (k.print q j)
  | .ident _ | .str _ | .num _ => by
    exact .refl
  | .computed expr => by
    exact (Rel.refl.append (expr.print_agree i j)).append .refl

theorem Pattern.print_agree (i j : Nat) : ∀ x : Pattern, agree.Rel (x.print p i) (x.print q j)
  | .ident .. | .object [] _ => by
    exact .refl
  | .object (prop :: props) _ => by
    exact (Rel.refl.append (printPatternProps_agree i j (prop :: props))).append .refl
  | .array elements _ => by
    exact (Rel.refl.append (printPatternSlots_agree i j elements)).append .refl
  | .rest arg _ => by
    exact Rel.refl.append (arg.print_agree i j)
  | .assign target default _ => by
    exact ((target.print_agree i j).append .refl).append (default.print_agree i j)

theorem printPatterns_agree (i j : Nat) :
    ∀ ps : List Pattern, agree.Rel (printPatterns p i ps) (printPatterns q j ps)
  | [] => by
    exact .refl
  | [x] => by
    exact x.print_agree i j
  | x :: y :: xs => by
    exact ((x.print_agree i j).append .refl).append (printPatterns_agree i j (y :: xs))

theorem printPatternSlots_agree (i j : Nat) :
    ∀ ps : List (Option Pattern), agree.Rel (printPatternSlots p i ps) (printPatternSlots q j ps)
  | [] | [none] => by
    exact .refl
  | [some x] => by
    exact x.print_agree i j
  | none :: x :: xs => by
    exact Rel.refl.append (printPatternSlots_agree i j (x :: xs))
  | some x :: y :: xs => by
    exact ((x.print_agree i j).append .refl).append (printPatternSlots_agree i j (y :: xs))

theorem PatternProp.print_agree (i j : Nat) :
    ∀ x : PatternProp, agree.Rel (x.print p i) (x.print q j)
  | .keyValue key value => by
    exact ((key.print_agree i j).append .refl).append (value.print_agree i j)
  | .shorthand _ none => by
    exact .refl
  | .shorthand _ (some default) => by
    exact (Rel.refl.append .refl).append (default.print_agree i j)
  | .rest arg => by
    exact Rel.refl.append (arg.print_agree i j)

theorem printPatternProps_agree (i j : Nat) :
    ∀ ps : List PatternProp, agree.Rel (printPatternProps p i ps) (printPatternProps q j ps)
  | [] => by
    exact .refl
  | [x] => by
    exact x.print_agree i j
  | x :: y :: xs => by
    exact ((x.print_agree i j).append .refl).append (printPatternProps_agree i j (y :: xs))

theorem Function.print_agree (i j : Nat) : ∀ f : Function, agree.Rel (f.print p i) (f.print q j)
  | .mk _ _ params body _ => by
    exact (((Rel.refl.append (printPatterns_agree i j params)).append .refl).append .refl).append
      (printBlock_agree i j body)

theorem Declarator.print_agree (i j : Nat) :
    ∀ d : Declarator, agree.Rel (d.print p i) (d.print q j)
  | .mk target none _ => by
    exact target.print_agree i j
  | .mk target (some init) _ => by
    exact ((target.print_agree i j).append .refl).append (init.print_agree i j)

theorem printDeclarators_agree (i j : Nat) :
    ∀ ds : List Declarator, agree.Rel (printDeclarators p i ds) (printDeclarators q j ds)
  | [] => by
    exact .refl
  | [d] => by
    exact d.print_agree i j
  | d :: e :: ds => by
    exact ((d.print_agree i j).append .refl).append (printDeclarators_agree i j (e :: ds))

theorem ForInit.print_agree (i j : Nat) : ∀ f : ForInit, agree.Rel (f.print p i) (f.print q j)
  | .decl _ declarations => by
    exact Rel.refl.append (printDeclarators_agree i j declarations)
  | .expr expr => by
    exact expr.print_agree i j

theorem ForHead.print_agree (i j : Nat) : ∀ f : ForHead, agree.Rel (f.print p i) (f.print q j)
  | .decl _ target => by
    exact Rel.refl.append (target.print_agree i j)
  | .target expr => by
    exact expr.print_agree i j

theorem CatchClause.print_agree (i j : Nat) :
    ∀ c : CatchClause, agree.Rel (c.print p i) (c.print q j)
  | .mk none body _ => by
    exact printBlock_agree i j body
  | .mk (some param) body _ => by
    exact ((Rel.refl.append (param.print_agree i j)).append .refl).append (printBlock_agree i j body)

theorem SwitchCase.print_agree (i j : Nat) :
    ∀ c : SwitchCase, agree.Rel (c.print p i) (c.print q j)
  | .mk none body _ => by
    exact ((agree.newline i j).append .refl).append (printBody_agree (i + 1) (j + 1) body)
  | .mk (some test) body _ => by
    exact ((((agree.newline i j).append .refl).append (test.print_agree i j)).append .refl).append
      (printBody_agree (i + 1) (j + 1) body)

theorem printCases_agree (i j : Nat) :
    ∀ cs : List SwitchCase, agree.Rel (printCases p i cs) (printCases q j cs)
  | [] => by
    exact .refl
  | c :: cs => by
    exact (c.print_agree i j).append (printCases_agree i j cs)

theorem printOption_agree (i j : Nat) :
    ∀ e : Option Expr, agree.Rel (printOption p i e) (printOption q j e)
  | none => by
    exact .refl
  | some e => by
    exact e.print_agree i j

theorem printSpaced_agree (i j : Nat) :
    ∀ e : Option Expr, agree.Rel (printSpaced p i e) (printSpaced q j e)
  | none => by
    exact .refl
  | some e => by
    exact Rel.refl.append (e.print_agree i j)

theorem Stmt.print_agree (i j : Nat) : ∀ x : Stmt, agree.Rel (x.print p i) (x.print q j)
  | .block body _ => by
    exact printBlock_agree i j body
  | .empty _ | .break _ | .continue _ | .ret none _ | .importDecl none _ _ | .importDecl (some _) _ _
  | .exportDecl none _ _ _ | .typeOnly .. => by
    exact .refl
  | .varDecl _ declarations _ => by
    exact (Rel.refl.append (printDeclarators_agree i j declarations)).append .refl
  | .function func _ => by
    exact func.print_agree i j
  | .ifElse test consequent none _ => by
    exact ((Rel.refl.append (printOption_agree i j test)).append .refl).append (consequent.print_agree i j)
  | .ifElse test consequent (some alternate) _ => by
    exact ((((Rel.refl.append (printOption_agree i j test)).append .refl).append
      (consequent.print_agree i j)).append .refl).append (alternate.print_agree i j)
  | .for none test update body _ => by
    exact (((((Rel.refl.append (printSpaced_agree i j test)).append .refl).append
      (printSpaced_agree i j update)).append .refl).append .refl).append (body.print_agree i j)
  | .for (some init) test update body _ => by
    exact (((((((Rel.refl.append (init.print_agree i j)).append .refl).append
      (printSpaced_agree i j test)).append .refl).append (printSpaced_agree i j update)).append .refl).append
      .refl).append (body.print_agree i j)
  | .forEach _ _ left right body _ => by
    exact (((((((Rel.refl.append (left.print_agree i j)).append .refl).append .refl).append .refl).append
      (right.print_agree i j)).append .refl).append .refl).append (body.print_agree i j)
  | .while test body _ => by
    exact (((Rel.refl.append (printOption_agree i j test)).append .refl).append .refl).append
      (body.print_agree i j)
  | .doWhile body test _ => by
    exact (((Rel.refl.append (body.print_agree i j)).append .refl).append (printOption_agree i j test)).append
      .refl
  | .try block none none _ => by
    exact ((Rel.refl.append (printBlock_agree i j block)).append .refl).append .refl
  | .try block (some clause) none _ => by
    exact ((Rel.refl.append (printBlock_agree i j block)).append
      (Rel.refl.append (clause.print_agree i j))).append .refl
  | .try block none (some body) _ => by
    exact ((Rel.refl.append (printBlock_agree i j block)).append .refl).append
      (Rel.refl.append (printBlock_agree i j body))
  | .try block (some clause) (some body) _ => by
    exact ((Rel.refl.append (printBlock_agree i j block)).append
      (Rel.refl.append (clause.print_agree i j))).append (Rel.refl.append (printBlock_agree i j body))
  | .switch discriminant [] _ => by
    exact (Rel.refl.append (discriminant.print_agree i j)).append .refl
  | .switch discriminant (c :: cs) _ => by
    exact ((((Rel.refl.append (discriminant.print_agree i j)).append .refl).append
      (printCases_agree (i + 1) (j + 1) (c :: cs))).append (agree.newline i j)).append .refl
  | .ret (some value) _ | .throw value _ => by
    exact (Rel.refl.append (value.print_agree i j)).append .refl
  | .expr value _ => by
    exact (value.print_agree i j).append .refl
  | .exportDecl (some declaration) _ _ _ => by
    exact Rel.refl.append (declaration.print_agree i j)

theorem printBody_agree (i j : Nat) :
    ∀ xs : List Stmt, agree.Rel (printBody p i xs) (printBody q j xs)
  | [] => by
    exact .refl
  | x :: xs => by
    exact ((agree.newline i j).append (x.print_agree i j)).append (printBody_agree i j xs)

theorem printBlock_agree (i j : Nat) :
    ∀ xs : List Stmt, agree.Rel (printBlock p i xs) (printBlock q j xs)
  | [] => by
    exact .refl
  | x :: xs => by
    exact ((((Rel.refl.append (agree.newline (i + 1) (j + 1))).append
      (x.print_agree (i + 1) (j + 1))).append (printBody_agree (i + 1) (j + 1) xs)).append
      (agree.newline i j)).append .refl

end

end

end FlowScript
