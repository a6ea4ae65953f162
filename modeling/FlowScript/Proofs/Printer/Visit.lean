import FlowScript.Printer.Visit
import FlowScript.Proofs.Ast.Node
import Mathlib.Data.List.ReduceOption

/-!
# Visits of children

A node fits when its children fit one level less deep, and clauses, declarators and functions, which are no level of
their own, as deep. What fits in some levels fits in more.
-/

namespace FlowScript

/-! ## Visits of children -/

/-- Whether at most `k` statements, expressions and patterns in a node lie inside one another. -/
def Node.fits (k : Nat) : Node → Bool
  | expr e => e.fits k
  | pattern p => p.fits k
  | stmt s => s.fits k
  | declarator d => (d.visit k).finished
  | function f => (f.visit k).finished
  | catchClause c => (c.visit k).finished
  | switchCase c => (c.visit k).finished

section
variable (k : Nat)

@[simp] theorem Node.fits_expr (e : Expr) : (expr e).fits k = e.fits k := rfl

@[simp] theorem Node.fits_pattern (p : Pattern) : (pattern p).fits k = p.fits k := rfl

@[simp] theorem Node.fits_stmt (s : Stmt) : (stmt s).fits k = s.fits k := rfl

@[simp] theorem Node.fits_declarator (d : Declarator) : (declarator d).fits k = (d.visit k).finished := rfl

@[simp] theorem Node.fits_function (f : Function) : (function f).fits k = (f.visit k).finished := rfl

@[simp] theorem Node.fits_catchClause (c : CatchClause) : (catchClause c).fits k = (c.visit k).finished := rfl

@[simp] theorem Node.fits_switchCase (c : SwitchCase) : (switchCase c).fits k = (c.visit k).finished := rfl

@[simp] theorem Expr.finished_visit (e : Expr) : (e.visit k).finished = e.fits k := rfl

@[simp] theorem Pattern.finished_visit (p : Pattern) : (p.visit k).finished = p.fits k := rfl

@[simp] theorem Stmt.finished_visit (s : Stmt) : (s.visit k).finished = s.fits k := rfl

end

/-- Whether each of some children fits. -/
def Child.allFit (k : Nat) (cs : List Child) : Bool := cs.all (·.node.fits k)

section
variable {k : Nat} {cs ds : List Child}
open Child (allFit)

@[simp] theorem Child.allFit_nil : allFit k [] = true := rfl

@[simp] theorem Child.allFit_cons {c : Child} : allFit k (c :: cs) = (c.node.fits k && allFit k cs) := rfl

@[simp] theorem Child.allFit_append : allFit k (cs ++ ds) = (allFit k cs && allFit k ds) := List.all_append

@[simp] theorem Child.allFit_map {α : Type} {f : α → Child} {as : List α} :
    allFit k (as.map f) = as.all fun a => (f a).node.fits k := List.all_map

@[simp] theorem Child.allFit_flatMap {α : Type} {f : α → List Child} {as : List α} :
    allFit k (as.flatMap f) = as.all fun a => allFit k (f a) := List.all_flatMap

/-- A visit of a list goes to the end when the visit of each item does. -/
theorem finished_all {α : Type} (each : α → Visit) {all : List α → Visit} (nil : all [] = .nothing)
    (cons : ∀ a as, all (a :: as) = each a ++ all as) (as : List α) :
    (all as).finished = as.all fun a => (each a).finished := by
  induction as with
  | nil => rw [nil]; rfl
  | cons a as ih => rw [cons, Visit.finished_append, ih, List.all_cons]

@[simp] theorem finished_visitExprs (es : List Expr) : (visitExprs k es).finished = es.all (·.fits k) :=
  finished_all (Expr.visit k) rfl (fun _ _ => rfl) es

@[simp] theorem finished_visitStmts (ss : List Stmt) : (visitStmts k ss).finished = ss.all (·.fits k) :=
  finished_all (Stmt.visit k) rfl (fun _ _ => rfl) ss

@[simp] theorem finished_visitPatterns (ps : List Pattern) : (visitPatterns k ps).finished = ps.all (·.fits k) :=
  finished_all (Pattern.visit k) rfl (fun _ _ => rfl) ps

@[simp] theorem finished_visitDeclarators (ds : List Declarator) :
    (visitDeclarators k ds).finished = ds.all fun d => (d.visit k).finished :=
  finished_all (Declarator.visit k) rfl (fun _ _ => rfl) ds

@[simp] theorem finished_visitCases (cs : List SwitchCase) :
    (visitCases k cs).finished = cs.all fun c => (c.visit k).finished :=
  finished_all (SwitchCase.visit k) rfl (fun _ _ => rfl) cs

@[simp] theorem finished_visitOption (e : Option Expr) :
    (visitOption k e).finished = allFit k (Child.optional .sequence e) := by
  cases e <;> simp [visitOption, Child.optional]

@[simp] theorem PropKey.finished_visit (key : PropKey) : (key.visit k).finished = allFit k key.children := by
  cases key <;> simp [PropKey.visit, PropKey.children]

@[simp] theorem ObjectProp.finished_visit (prop : ObjectProp) : (prop.visit k).finished = allFit k prop.children := by
  rcases prop with _ | ⟨_, _ | _⟩ | _ | _ <;> simp [ObjectProp.visit, ObjectProp.children, Child.optional]

@[simp] theorem PatternProp.finished_visit (prop : PatternProp) : (prop.visit k).finished = allFit k prop.children := by
  rcases prop with _ | ⟨_, _ | _⟩ | _ <;> simp [PatternProp.visit, PatternProp.children, Child.optional]

@[simp] theorem finished_visitObjectProps (props : List ObjectProp) :
    (visitObjectProps k props).finished = allFit k (props.flatMap ObjectProp.children) := by
  rw [finished_all (ObjectProp.visit k) rfl (fun _ _ => rfl) props]
  simp

@[simp] theorem finished_visitPatternProps (props : List PatternProp) :
    (visitPatternProps k props).finished = allFit k (props.flatMap PatternProp.children) := by
  rw [finished_all (PatternProp.visit k) rfl (fun _ _ => rfl) props]
  simp

@[simp] theorem finished_visitSlots (es : List (Option Expr)) :
    (visitSlots k es).finished = es.reduceOption.all (·.fits k) := by
  induction es with
  | nil => rfl
  | cons e es ih => cases e <;> simp [visitSlots, ih]

@[simp] theorem finished_visitPatternSlots (ps : List (Option Pattern)) :
    (visitPatternSlots k ps).finished = ps.reduceOption.all (·.fits k) := by
  induction ps with
  | nil => rfl
  | cons q ps ih => cases q <;> simp [visitPatternSlots, ih]

/-- A template goes to the end when its substitutions do, printed or not. -/
theorem finished_visitTemplate {count : Nat} {es : List Expr} (h : es.all (·.fits k) = true) :
    (visitTemplate k count es).finished = true := by
  induction es generalizing count with
  | nil => cases count <;> rfl
  | cons e es ih =>
    obtain ⟨first, rest⟩ := Bool.and_eq_true_iff.1 h
    cases count with
    | zero => rfl
    | succ count =>
      rw [visitTemplate, Visit.finished_append, ih rest, Bool.and_true]
      exact first

@[simp] theorem ArrowBody.finished_visit (body : ArrowBody) : (body.visit k).finished = allFit k body.children := by
  cases body <;> simp [ArrowBody.visit, ArrowBody.children]

@[simp] theorem ForInit.finished_visit (init : ForInit) : (init.visit k).finished = allFit k init.children := by
  cases init <;> simp [ForInit.visit, ForInit.children]

@[simp] theorem ForHead.finished_visit (head : ForHead) : (head.visit k).finished = allFit k head.children := by
  cases head <;> simp [ForHead.visit, ForHead.children]

/-! ## Nodes and their children -/

/-- The levels that a node itself is. -/
def Node.own : Node → Nat
  | expr _ | pattern _ | stmt _ => 1
  | _ => 0

theorem Node.own_le (n : Node) : n.own ≤ 1 := by
  cases n <;> simp [own]

/-- An expression that is no template, all of whose parts are printed, fits when its children do, one level less deep. -/
theorem Expr.fits_succ {e : Expr} (whole : ∀ quasis exprs span, e ≠ .template quasis exprs span) :
    e.fits (k + 1) = allFit k e.children := by
  unfold Expr.fits
  cases e with
  | ident | this | num | str | bool | null | regex => rfl
  | template quasis exprs span => exact absurd rfl (whole quasis exprs span)
  | «new» callee args span => cases args <;> simp [Expr.visit, Expr.children]
  | _ => simp [Expr.visit, Expr.children, Bool.and_assoc]

theorem Expr.fits_of_children {e : Expr} (h : allFit k e.children = true) : e.fits (k + 1) = true := by
  by_cases whole : ∀ quasis exprs span, e ≠ .template quasis exprs span
  · rw [fits_succ whole, h]
  · obtain ⟨quasis, exprs, span, rfl⟩ : ∃ quasis exprs span, e = .template quasis exprs span := by
      simpa using whole
    exact finished_visitTemplate (by simpa [Expr.children] using h)

theorem Pattern.fits_succ (p : Pattern) : p.fits (k + 1) = allFit k p.children := by
  unfold Pattern.fits
  cases p with
  | ident => rfl
  | _ => simp [Pattern.visit, Pattern.children]

theorem Function.finished_visit (f : Function) : (f.visit k).finished = allFit k f.children := by
  cases f
  simp [Function.visit, Function.children]

theorem Declarator.finished_visit (d : Declarator) : (d.visit k).finished = allFit k d.children := by
  rcases d with ⟨target, _ | init, span⟩ <;> simp [Declarator.visit, Declarator.children, Child.optional]

theorem CatchClause.finished_visit (c : CatchClause) : (c.visit k).finished = allFit k c.children := by
  rcases c with ⟨_ | param, body, span⟩ <;> simp [CatchClause.visit, CatchClause.children]

theorem SwitchCase.finished_visit (c : SwitchCase) : (c.visit k).finished = allFit k c.children := by
  rcases c with ⟨_ | test, body, span⟩ <;> simp [SwitchCase.visit, SwitchCase.children, Child.optional]

theorem Stmt.fits_succ (s : Stmt) : s.fits (k + 1) = allFit k s.children := by
  unfold Stmt.fits
  cases s with
  | empty | «break» | «continue» | importDecl | typeOnly => rfl
  | ifElse test consequent alternate span => cases alternate <;> simp [Stmt.visit, Stmt.children, Bool.and_assoc]
  | «for» init test update body span => cases init <;> simp [Stmt.visit, Stmt.children, Bool.and_assoc]
  | «try» tried handler finalizer span =>
    cases handler <;> cases finalizer <;> simp [Stmt.visit, Stmt.children, Bool.and_assoc]
  | exportDecl declaration clause isDefault span =>
    cases declaration with
    | none => rfl
    | some declaration => simp [Stmt.visit, Stmt.children]
  | _ => simp [Stmt.visit, Stmt.children, Bool.and_assoc]

/-- A node fits when its children do, one level less deep if it is a level itself. -/
theorem Node.fits_of_children {n : Node} (h : allFit k n.children = true) : n.fits (k + n.own) = true := by
  cases n with
  | expr e => exact Expr.fits_of_children h
  | pattern p => exact (Pattern.fits_succ p).trans h
  | stmt s => exact (Stmt.fits_succ s).trans h
  | declarator d => exact (Declarator.finished_visit d).trans h
  | function f => exact (Function.finished_visit f).trans h
  | catchClause c => exact (CatchClause.finished_visit c).trans h
  | switchCase c => exact (SwitchCase.finished_visit c).trans h

/-- The head of a loop goes to the end when the children of the loop do. -/
theorem Stmt.finished_visitLoopHead {s : Stmt} (h : allFit k s.children = true) :
    (s.visitLoopHead k).finished = true := by
  cases s with
  | «for» init test update body span =>
    cases init <;> simp_all [Stmt.visitLoopHead, Stmt.children]
  | forEach | «while» | doWhile =>
    simp_all [Stmt.visitLoopHead, Stmt.children]
  | _ => rfl

/-! ## More levels -/

/-- What is no level itself has levels directly below it. -/
theorem Node.own_child {n : Node} (light : n.own = 0) : ∀ c ∈ n.children, c.node.own = 1 := by
  cases n with
  | expr | pattern | stmt => simp [own] at light
  | declarator d =>
    rcases d with ⟨target, _ | init, span⟩ <;> simp [children, Declarator.children, Child.optional, own]
  | function f =>
    obtain ⟨name, isAsync, params, body, span⟩ := f
    simp [children, Function.children, own, or_imp, forall_and]
  | catchClause c =>
    obtain ⟨param, body, span⟩ := c
    simp [children, CatchClause.children, own, or_imp, forall_and]
  | switchCase c =>
    rcases c with ⟨_ | test, body, span⟩ <;>
      simp [children, SwitchCase.children, Child.optional, own, or_imp, forall_and]

theorem Node.fits_of_own_eq_zero {n : Node} (light : n.own = 0) : n.fits k = allFit k n.children := by
  cases n with
  | expr | pattern | stmt => simp [own] at light
  | declarator d => exact Declarator.finished_visit d
  | function f => exact Function.finished_visit f
  | catchClause c => exact CatchClause.finished_visit c
  | switchCase c => exact SwitchCase.finished_visit c

theorem Node.not_fits_zero {n : Node} (heavy : n.own = 1) : n.fits 0 = false := by
  cases n with
  | expr e => cases e <;> rfl
  | pattern p => cases p <;> rfl
  | stmt s => cases s <;> rfl
  | _ => simp [own] at heavy

theorem finished_visitTemplate_succ {count : Nat} {es : List Expr}
    (each : ∀ e : Expr, e.fits k = true → e.fits (k + 1) = true) (h : (visitTemplate k count es).finished = true) :
    (visitTemplate (k + 1) count es).finished = true := by
  induction es generalizing count with
  | nil => cases count <;> rfl
  | cons e es ih =>
    cases count with
    | zero => rfl
    | succ count =>
      simp only [visitTemplate, Visit.finished_append, Bool.and_eq_true] at h ⊢
      exact ⟨each e h.1, ih h.2⟩

/-- If what is a level itself fits in one more level, so does all else, as its children are levels. -/
theorem Node.fits_succ_of_levels (levels : ∀ n : Node, n.own = 1 → n.fits k = true → n.fits (k + 1) = true) (n : Node)
    (h : n.fits k = true) : n.fits (k + 1) = true := by
  rcases Nat.eq_zero_or_pos n.own with none_ | some_
  · rw [fits_of_own_eq_zero none_] at h ⊢
    refine List.all_eq_true.2 fun c mem => levels c.node (own_child none_ c mem) ?_
    exact List.all_eq_true.1 h c mem
  · have := n.own_le
    exact levels n (by omega) h

/-- The induction is on the levels, not on the tree: the children of what is a level itself fit in one less. -/
theorem Node.level_fits_succ {n : Node} (level : n.own = 1) (h : n.fits k = true) : n.fits (k + 1) = true := by
  induction k generalizing n with
  | zero =>
    rw [not_fits_zero level] at h
    contradiction
  | succ k ih =>
    have more (n : Node) : n.fits k = true → n.fits (k + 1) = true := fits_succ_of_levels (fun n => ih) n
    have each {cs : List Child} (h : allFit k cs = true) : allFit (k + 1) cs = true :=
      List.all_eq_true.2 fun c mem => more c.node (List.all_eq_true.1 h c mem)
    cases n with
    | expr e =>
      by_cases whole : ∀ quasis exprs span, e ≠ .template quasis exprs span
      · rw [fits_expr, Expr.fits_succ whole] at h ⊢
        exact each h
      · obtain ⟨quasis, exprs, span, rfl⟩ : ∃ quasis exprs span, e = .template quasis exprs span := by
          simpa using whole
        exact finished_visitTemplate_succ (fun e => more (.expr e)) h
    | pattern p =>
      rw [fits_pattern, Pattern.fits_succ] at h ⊢
      exact each h
    | stmt s =>
      rw [fits_stmt, Stmt.fits_succ] at h ⊢
      exact each h
    | _ => simp [own] at level

/-- What fits in some levels fits in one more. -/
theorem Node.fits_succ_of_fits {n : Node} (h : n.fits k = true) : n.fits (k + 1) = true :=
  fits_succ_of_levels (fun _ => level_fits_succ) n h

/-- The children of a statement fit where the statement does. -/
theorem Stmt.fits_child {s : Stmt} (h : s.fits k = true) {c : Child} (mem : c ∈ s.children) : c.node.fits k = true := by
  cases k with
  | zero =>
    have never : s.fits 0 = false := Node.not_fits_zero (n := .stmt s) rfl
    rw [never] at h
    contradiction
  | succ k =>
    rw [fits_succ] at h
    exact Node.fits_succ_of_fits (List.all_eq_true.1 h c mem)

end

end FlowScript
