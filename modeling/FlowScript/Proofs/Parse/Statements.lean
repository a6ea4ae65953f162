import FlowScript.Proofs.Parse.Made

/-!
# Assembling statements

Every match of a rule of statements becomes the piece that the rule stands for, whatever its parts.
-/

namespace FlowScript.Parse
open FlowScript.Grammar (Rule ruleBody)

variable {e : Grammar.Body} {parts : List Part} {site : Site}

namespace Inside

theorem varKind (h : Inside e parts) (need : e.needs (· = .varKind) = true) :
    Succeeds (varKind parts site) := by
  refine .bind (h.the need) fun p ⟨sound, is⟩ => ?_
  obtain ⟨kind, named⟩ := sound.spelled.varKind is
  simp only [named]
  exact .ok trivial

/-- The condition of a statement, which may be left empty. -/
theorem test (h : Inside e parts) : Succeeds (Parse.optional parts .expression Part.toExpr) :=
  h.optional fun _ sound is => sound.toExpr is rfl

/-- The statement inside another. -/
theorem body (h : Inside e parts) (need : e.needs (· = .statement) = true) :
    Succeeds (do (← Parse.the site parts .statement).toStmt) :=
  .bind (h.the need) fun _ ⟨sound, is⟩ => sound.toStmt is rfl

end Inside

theorem varDecl_fills (is : site.rule = .varDecl) (h : Inside (ruleBody .varDecl) parts) :
    Gives (varDecl site parts) (Fills site parts) := by
  obtain ⟨first, mem, isDeclarator⟩ := h.exists_of_needs (P := (· = .declarator)) rfl
  have some_ : parts.filter (·.rule = .declarator) ≠ [] := List.ne_nil_of_mem (List.mem_filter.2 ⟨mem, isDeclarator⟩)
  refine .bind (h.varKind rfl) fun kind _ => ?_
  refine .bind (Succeeds.mapM_ne_nil (fun p mem => ?_) some_) fun declarations nonempty => ?_
  · obtain ⟨inside, is⟩ := List.mem_filter.1 mem
    exact (h.sound p inside).declarator (of_decide_eq_true is) rfl
  · exact plain_fills is (.of_decl nonempty)

theorem forInit_fills (is : site.rule = .forInit) (h : Inside (ruleBody .forInit) parts) :
    Gives (forInit site parts) (Fills site parts) := by
  refine .bind (h.first rfl) fun p ⟨sound, called⟩ => ?_
  rcases List.mem_pair.1 called with decl | expr
  · obtain ⟨kind, declarations, piece⟩ := Piece.eq_decl (sound.role decl rfl)
    have nonempty := sound.makes.decl decl kind declarations piece
    simp only [piece]
    exact plain_fills is (.of_init fun _ _ same => (ForInit.decl.inj same).2 ▸ nonempty)
  · obtain ⟨e, piece⟩ := Piece.eq_expr (sound.role expr rfl)
    simp only [piece]
    refine .bind (sound.toExpr expr rfl) fun e _ => ?_
    exact plain_fills is (.of_init (by simp))

theorem forLeft_fills (is : site.rule = .forLeft) (h : Inside (ruleBody .forLeft) parts) :
    Gives (forLeft site parts) (Fills site parts) := by
  unfold forLeft
  rcases h.alt with decl | expr
  · have noExpr : parts.find? (·.rule = .callExpr) = none := decl.find?_eq_none (by decide)
    simp only [noExpr]
    refine .bind (decl.varKind rfl) fun kind _ => ?_
    refine .bind (decl.target rfl) fun target _ => ?_
    exact plain_fills is (.of_role rfl rfl)
  · obtain ⟨p, rfl, sound, isExpr⟩ := expr.call
    simp only [List.find?_singleton, isExpr, decide_true, if_true]
    refine .bind (sound.toExpr isExpr rfl) fun target _ => ?_
    exact plain_fills is (.of_role rfl rfl)

theorem forInOf_fills (is : site.rule = .forInOfStmt) (h : Inside (ruleBody .forInOfStmt) parts) :
    Gives (forInOf site parts) (Fills site parts) := by
  refine .bind (h.the rfl) fun kind ⟨kindSound, isKind⟩ => ?_
  refine .bind (h.the rfl) fun left ⟨leftSound, isLeft⟩ => ?_
  obtain ⟨loop, named⟩ := kindSound.spelled.forKind isKind
  obtain ⟨head, piece⟩ := Piece.eq_forHead (leftSound.role isLeft rfl)
  simp only [named, piece]
  refine h.read rfl (fun _ sound is => sound.toExpr is rfl) fun right => ?_
  refine h.read rfl (fun _ sound is => sound.toStmt is rfl) fun body => ?_
  exact plain_fills is (.of_role rfl rfl)

theorem switchCase_fills (is : site.rule = .switchCase) (h : Inside (ruleBody .switchCase) parts) :
    Gives (switchCase site parts) (Fills site parts) := by
  refine .bind (h.optional fun p sound is => sound.toExpr is rfl) fun test _ => ?_
  refine .bind (h.mapM_filter fun p sound is => sound.toStmt is rfl) fun body _ => ?_
  exact plain_fills is (.of_role rfl rfl)

theorem catchClause_fills (is : site.rule = .catchClause) (h : Inside (ruleBody .catchClause) parts) :
    Gives (catchClause site parts) (Fills site parts) := by
  refine .bind (P := fun _ => True) ?_ fun param _ => ?_
  · cases found : parts.find? (·.isTarget) with
    | none => exact .ok trivial
    | some p =>
      refine .bind (Part.Sound.toPattern_of_isTarget ?_ ?_) fun pattern _ => .ok trivial
      · exact h.sound p (List.mem_of_find?_eq_some found)
      · exact List.find?_some (p := Part.isTarget) found
  refine h.read rfl (fun _ sound is => sound.toBody is rfl) fun body => ?_
  exact plain_fills is (.of_role rfl rfl)

theorem varStmt_fills (is : site.rule = .varStmt) (h : Inside (ruleBody .varStmt) parts) :
    Gives (statement site parts) (Fills site parts) := by
  simp only [statement, is]
  refine .bind (h.first rfl) fun decl ⟨sound, called⟩ => ?_
  have isDecl := List.mem_singleton.1 called
  refine .bind (sound.toDecl isDecl rfl) fun decl _ => ?_
  exact plain_fills is (.of_role rfl rfl)

theorem functionDecl_fills (is : site.rule = .functionDecl) (h : Inside (ruleBody .functionDecl) parts) :
    Gives (statement site parts) (Fills site parts) := by
  simp only [statement, is]
  refine .bind (h.function rfl _) fun func _ => ?_
  exact plain_fills is (.of_role rfl rfl)

theorem ifStmt_fills (is : site.rule = .ifStmt) (h : Inside (ruleBody .ifStmt) parts) :
    Gives (statement site parts) (Fills site parts) := by
  simp only [statement, is]
  refine .bind (h.optional fun p sound is => sound.toStmt is rfl) fun alternate _ => ?_
  refine .bind h.test fun test _ => ?_
  refine .bind (h.body rfl) fun consequent _ => ?_
  exact plain_fills is (.of_role rfl rfl)

theorem forStmt_fills (is : site.rule = .forStmt) (h : Inside (ruleBody .forStmt) parts) :
    Gives (statement site parts) (Fills site parts) := by
  simp only [statement, is]
  refine .bind (P := fun _ => True) (h.optional fun p sound is => ?_) fun init _ => ?_
  · obtain ⟨init, piece⟩ := Piece.eq_forInit (sound.role is rfl)
    simp only [piece]
    exact .ok trivial
  refine .bind (h.optional fun p sound is => sound.toExpr is rfl) fun check _ => ?_
  refine .bind (h.optional fun p sound is => sound.toExpr is rfl) fun update _ => ?_
  refine .bind (h.body rfl) fun body _ => ?_
  exact plain_fills is (.of_role rfl rfl)

theorem whileStmt_fills (is : site.rule = .whileStmt) (h : Inside (ruleBody .whileStmt) parts) :
    Gives (statement site parts) (Fills site parts) := by
  simp only [statement, is]
  refine .bind h.test fun test _ => ?_
  refine .bind (h.body rfl) fun body _ => ?_
  exact plain_fills is (.of_role rfl rfl)

theorem doWhileStmt_fills (is : site.rule = .doWhileStmt) (h : Inside (ruleBody .doWhileStmt) parts) :
    Gives (statement site parts) (Fills site parts) := by
  simp only [statement, is]
  refine .bind (h.body rfl) fun body _ => ?_
  refine .bind h.test fun test _ => ?_
  exact plain_fills is (.of_role rfl rfl)

theorem tryStmt_fills (is : site.rule = .tryStmt) (h : Inside (ruleBody .tryStmt) parts) :
    Gives (statement site parts) (Fills site parts) := by
  simp only [statement, is]
  refine h.read rfl (fun _ sound is => sound.toBody is rfl) fun block => ?_
  refine .bind (P := fun _ => True) (h.optional fun p sound is => ?_) fun handler _ => ?_
  · obtain ⟨clause, piece⟩ := Piece.eq_catchClause (sound.role is rfl)
    simp only [piece]
    exact .ok trivial
  refine .bind (h.optional fun p sound is => sound.toBody is rfl) fun finalizer _ => ?_
  exact plain_fills is (.of_role rfl rfl)

theorem switchStmt_fills (is : site.rule = .switchStmt) (h : Inside (ruleBody .switchStmt) parts) :
    Gives (statement site parts) (Fills site parts) := by
  simp only [statement, is]
  refine h.read rfl (fun _ sound is => sound.toExpr is rfl) fun value => ?_
  refine .bind (P := fun _ => True) (h.mapM_filter fun p sound is => ?_) fun cases _ => ?_
  · obtain ⟨clause, piece⟩ := Piece.eq_switchCase (sound.role is rfl)
    simp only [piece]
    exact .ok trivial
  exact plain_fills is (.of_role rfl rfl)

theorem returnStmt_fills (is : site.rule = .returnStmt) (h : Inside (ruleBody .returnStmt) parts) :
    Gives (statement site parts) (Fills site parts) := by
  simp only [statement, is]
  refine .bind h.test fun value _ => ?_
  exact plain_fills is (.of_role rfl rfl)

theorem throwStmt_fills (is : site.rule = .throwStmt) (h : Inside (ruleBody .throwStmt) parts) :
    Gives (statement site parts) (Fills site parts) := by
  simp only [statement, is]
  refine h.read rfl (fun _ sound is => sound.toExpr is rfl) fun value => ?_
  exact plain_fills is (.of_role rfl rfl)

theorem exprStmt_fills (is : site.rule = .exprStmt) (h : Inside (ruleBody .exprStmt) parts) :
    Gives (statement site parts) (Fills site parts) := by
  simp only [statement, is]
  refine .bind (h.first rfl) fun value ⟨sound, called⟩ => ?_
  have isExpr := List.mem_singleton.1 called
  refine .bind (sound.toExpr isExpr rfl) fun value _ => ?_
  exact plain_fills is (.of_role rfl rfl)

/-- The statements that have no parts to read. -/
theorem bareStmt_fills (is : site.rule = .emptyStmt ∨ site.rule = .breakStmt ∨ site.rule = .continueStmt) :
    Gives (statement site parts) (Fills site parts) := by
  rcases is with is | is | is
  all_goals
    simp only [statement, is]
    exact plain_fills is (.of_role rfl rfl)

/-- A block or a whole program. -/
theorem body_fills {rule : Rule} (is : site.rule = rule) (makes : ∀ items, Makes rule (.body items))
    (h : Inside (ruleBody rule) parts) (stmts : ∀ r ∈ (ruleBody rule).calls, r ≠ .endOfInput → readsStmt r = true) :
    Gives (do Made.plain (.body (← (parts.filter (·.rule ≠ .endOfInput)).mapM Part.toStmt))) (Fills site parts) := by
  refine .bind (Succeeds.mapM fun p mem => ?_) fun items _ => plain_fills is (makes items)
  obtain ⟨inside, notEnd⟩ := List.mem_filter.1 mem
  exact (h.sound p inside).toStmt rfl (stmts p.rule (h.called inside) (of_decide_eq_true notEnd))

end FlowScript.Parse
