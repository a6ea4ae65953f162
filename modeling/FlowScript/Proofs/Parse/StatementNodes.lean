import FlowScript.Proofs.Parse.Scene

/-!
# The nodes of statements

What assembly makes of a match of a rule of statements is grounded when its parts are.
-/

namespace FlowScript.Parse
open FlowScript.Grammar (Rule ruleBody mayBeEmpty)

variable {source : List Char} {site : Site} {parts : List Part}

theorem varDecl_shows (h : Scene source .varDecl site parts) : Yields (varDecl site parts) (Shows source site) := by
  refine .bind (P := fun _ => True) (fun _ _ => trivial) fun kind _ => ?_
  refine .bind (.mapM fun p mem => (h.grounded p (List.mem_of_mem_filter mem)).declarator) fun ds read => ?_
  refine shows_piece (h.lift_each fun d mem => ?_) trivial
  obtain ⟨p, among, holds⟩ := exists_of_forall₂ read mem
  exact ⟨p, List.mem_of_mem_filter among, holds⟩

theorem declarator_shows (h : Scene source .declarator site parts) :
    Yields (do Made.plain (.declarator (.mk (← target site parts) (← initial parts) site.span))) (Shows source site) := by
  refine .bind h.target fun q ⟨p, mem, _, holds⟩ => ?_
  refine .bind h.value fun init holdsInit => ?_
  refine shows_piece (.single ?_) trivial
  exact h.between rfl trivial trivial rfl rfl (List.forall_mem_nil _) ((h.lift_all mem holds).append holdsInit)

theorem forInit_shows (h : Scene source .forInit site parts) : Yields (forInit site parts) (Shows source site) := by
  refine .bind first_yields fun p mem => ?_
  have decl := (h.grounded p mem).toDecl
  split
  · rename_i kind ds piece
    have holds := decl (kind, ds) (by simp [Part.toDecl, piece])
    exact shows_piece (h.lift_all mem holds) trivial
  · rename_i other
    rcases List.mem_pair.1 (h.inside.called mem) with isDecl | isExpr
    · obtain ⟨kind, ds, piece⟩ := Piece.eq_decl ((h.inside.sound p mem).role isDecl rfl)
      exact absurd piece (other kind ds)
    · refine .bind (h.expr .sequence mem isExpr rfl) fun e holds => ?_
      exact shows_piece holds trivial

theorem forLeft_shows (h : Scene source .forLeft site parts) : Yields (forLeft site parts) (Shows source site) := by
  unfold forLeft
  cases found : parts.find? (·.rule = .callExpr) with
  | some p =>
    have mem := List.mem_of_find?_eq_some found
    have is : p.rule = .callExpr := by simpa using List.find?_some found
    refine .bind (h.grounded p mem).toExpr fun e between => ?_
    rw [is] at between
    exact shows_piece (h.lift_all mem (.single between)) trivial
  | none =>
    refine .bind (P := fun _ => True) (fun _ _ => trivial) fun kind _ => ?_
    refine .bind h.target fun q ⟨p, mem, _, holds⟩ => ?_
    exact shows_piece (h.lift_all mem holds) trivial

theorem forInOf_shows (h : Scene source .forInOfStmt site parts) : Yields (forInOf site parts) (Shows source site) := by
  refine .bind the_yields fun kindPart _ => ?_
  refine .bind the_yields fun leftPart ⟨memLeft, _⟩ => ?_
  split
  · rename_i kind left _ piece
    have holdsLeft := h.lift memLeft (h.grounded leftPart memLeft).nodes
    simp only [Part.nodes, piece] at holdsLeft
    refine read_yields (fun p mem is => h.expr .sequence mem is rfl) fun right holdsRight => ?_
    refine read_yields (fun p mem _ => h.stmt mem) fun body holdsBody => ?_
    exact h.shows_stmt rfl trivial trivial rfl (List.forall_mem_nil _) (holdsLeft.append (holdsRight.append holdsBody))
  · exact .error

theorem switchCase_shows (h : Scene source .switchCase site parts) :
    Yields (switchCase site parts) (Shows source site) := by
  refine .bind (h.optional .sequence rfl) fun test holdsTest => ?_
  refine .bind (h.stmts List.filter_sublist) fun body ⟨each, inOrder⟩ => ?_
  have holdsBody := h.lift_each each
  refine shows_piece (.single ?_) trivial
  exact h.between rfl trivial trivial rfl rfl (List.forall_mem_singleton.2 inOrder) (holdsTest.append holdsBody)

theorem catchClause_shows (h : Scene source .catchClause site parts) :
    Yields (catchClause site parts) (Shows source site) := by
  have binds : Yields ((parts.find? (·.isTarget)).mapM Part.toPattern) fun param =>
      site.Holds source 1 (param.toList.map .pattern) := by
    cases found : parts.find? (·.isTarget) with
    | none => exact .ok .nil
    | some p =>
      have mem := List.mem_of_find?_eq_some found
      refine .bind (h.grounded p mem).toPattern fun q holds => ?_
      exact .ok (h.lift mem holds)
  refine .bind binds fun param holdsParam => ?_
  refine read_yields (fun p mem _ => h.block mem) fun body ⟨holdsBody, inOrder⟩ => ?_
  refine shows_piece (.single ?_) trivial
  exact h.between rfl trivial trivial rfl rfl (List.forall_mem_singleton.2 inOrder) (holdsParam.append holdsBody)

theorem varStmt_shows (h : Scene source .varStmt site parts) : Yields (statement site parts) (Shows source site) := by
  simp only [statement, h.is]
  refine .bind first_yields fun p mem => ?_
  have is := List.mem_singleton.1 (h.inside.called mem)
  obtain ⟨kind, declarations, piece⟩ := Piece.eq_decl ((h.inside.sound p mem).role is rfl)
  have nonempty := (h.inside.sound p mem).makes.decl is kind declarations piece
  have read : p.toDecl = .ok (kind, declarations) := by simp only [Part.toDecl, piece]
  have holds := (h.grounded p mem).toDecl _ read
  simp only [read]
  exact h.shows_stmt rfl nonempty trivial rfl (List.forall_mem_nil _) (h.lift_all mem holds)

theorem functionDecl_shows (h : Scene source .functionDecl site parts) :
    Yields (statement site parts) (Shows source site) := by
  simp only [statement, h.is]
  refine .bind (h.function rfl rfl h.named) fun func holds => ?_
  exact h.shows_stmt rfl trivial trivial rfl (List.forall_mem_nil _) holds

theorem ifStmt_shows (h : Scene source .ifStmt site parts) : Yields (statement site parts) (Shows source site) := by
  simp only [statement, h.is]
  have other : Yields (optional parts .elseClause Part.toStmt) fun s => site.Holds source 1 (s.toList.map .stmt) :=
    optional_yields .nil fun p mem _ => h.stmt mem
  refine .bind other fun alternate holdsAlternate => ?_
  refine .bind h.test fun test holdsTest => ?_
  refine .bind h.body fun consequent holdsConsequent => ?_
  exact h.shows_stmt rfl trivial trivial rfl (List.forall_mem_nil _)
    (holdsTest.append (holdsConsequent.append holdsAlternate))

theorem forStmt_shows (h : Scene source .forStmt site parts) : Yields (statement site parts) (Shows source site) := by
  simp only [statement, h.is]
  refine .bind (P := fun init => site.Holds source (beside .forStmt) (init.toList.flatMap ForInit.children) ∧
    ∀ kind declarations, init = some (.decl kind declarations) → declarations ≠ []) ?_ fun init ⟨holdsInit, some_⟩ => ?_
  · refine optional_yields ⟨.nil, nofun⟩ fun p mem is => ?_
    have nodes := h.lift mem (h.grounded p mem).nodes
    split
    · rename_i init piece
      rw [Part.nodes, piece] at nodes
      refine .ok ⟨by simpa using nodes, fun kind declarations same => ?_⟩
      cases same
      exact (h.inside.sound p mem).makes.init is kind declarations piece
    · exact .error
  refine .bind (h.optional .sequence rfl) fun check holdsCheck => ?_
  refine .bind (h.optional .sequence rfl) fun update holdsUpdate => ?_
  refine .bind h.body fun body holdsBody => ?_
  have formed : (Node.stmt (.for init check update body site.span)).Formed source := by
    rcases init with _ | ⟨kind, declarations⟩ | e
    · trivial
    · exact some_ kind declarations rfl
    · trivial
  exact h.shows_stmt rfl formed trivial rfl (List.forall_mem_nil _)
    (((holdsInit.append holdsCheck).append holdsUpdate).append holdsBody)

theorem whileStmt_shows (h : Scene source .whileStmt site parts) : Yields (statement site parts) (Shows source site) := by
  simp only [statement, h.is]
  refine .bind h.test fun test holdsTest => ?_
  refine .bind h.body fun body holdsBody => ?_
  exact h.shows_stmt rfl trivial trivial rfl (List.forall_mem_nil _) (holdsTest.append holdsBody)

theorem doWhileStmt_shows (h : Scene source .doWhileStmt site parts) :
    Yields (statement site parts) (Shows source site) := by
  simp only [statement, h.is]
  refine .bind h.body fun body holdsBody => ?_
  refine .bind h.test fun test holdsTest => ?_
  exact h.shows_stmt rfl trivial trivial rfl (List.forall_mem_nil _) (holdsBody.append holdsTest)

theorem tryStmt_shows (h : Scene source .tryStmt site parts) : Yields (statement site parts) (Shows source site) := by
  simp only [statement, h.is]
  refine read_yields (fun p mem _ => h.block mem) fun tried insideTried => ?_
  obtain ⟨holdsTried, triedInOrder⟩ := insideTried
  refine .bind (P := fun handler => site.Holds source 1 (handler.toList.map fun clause => ⟨.other, .catchClause clause⟩))
    ?_ fun handler holdsHandler => ?_
  · refine optional_yields .nil fun p mem is => ?_
    have nodes := h.lift mem (h.grounded p mem).nodes
    split
    · rename_i clause piece
      rw [Part.nodes, piece] at nodes
      exact .ok nodes
    · exact .error
  refine .bind (P := fun finalizer => site.Holds source (beside .tryStmt) (finalizer.toList.flatten.map .stmt) ∧
    ∀ body ∈ finalizer.toList, InOrder body) ?_ fun finalizer insideFinalizer => ?_
  · refine optional_yields ⟨.nil, List.forall_mem_nil _⟩ fun p mem _ body read => ?_
    obtain ⟨holds, inOrder⟩ := h.block mem body read
    exact ⟨by simpa using holds, List.forall_mem_singleton.2 inOrder⟩
  obtain ⟨holdsFinalizer, endInOrder⟩ := insideFinalizer
  refine h.shows_stmt rfl trivial trivial rfl (List.forall_mem_cons.2 ⟨triedInOrder, endInOrder⟩) ?_
  exact (holdsTried.append holdsHandler).append holdsFinalizer

theorem switchStmt_shows (h : Scene source .switchStmt site parts) :
    Yields (statement site parts) (Shows source site) := by
  simp only [statement, h.is]
  refine read_yields (fun p mem is => h.expr .sequence mem is rfl) fun value holdsValue => ?_
  refine .bind (.mapM (R := fun p clause => p.Holds source 0 [⟨.other, .switchCase clause⟩]) fun p mem => ?_)
    fun cases read => ?_
  · have nodes := (h.grounded p (List.mem_of_mem_filter mem)).nodes
    split
    · rename_i clause piece
      rw [Part.nodes, piece] at nodes
      exact .ok nodes
    · exact .error
  refine h.shows_stmt rfl trivial trivial rfl (List.forall_mem_nil _) (holdsValue.append ?_)
  refine h.lift_each fun clause mem => ?_
  obtain ⟨p, among, holds⟩ := exists_of_forall₂ read mem
  exact ⟨p, List.mem_of_mem_filter among, holds⟩

theorem returnStmt_shows (h : Scene source .returnStmt site parts) :
    Yields (statement site parts) (Shows source site) := by
  simp only [statement, h.is]
  refine .bind h.test fun value holds => ?_
  exact h.shows_stmt rfl trivial trivial rfl (List.forall_mem_nil _) holds

theorem throwStmt_shows (h : Scene source .throwStmt site parts) : Yields (statement site parts) (Shows source site) := by
  simp only [statement, h.is]
  refine read_yields (fun p mem is => h.expr .sequence mem is rfl) fun value holds => ?_
  exact h.shows_stmt rfl trivial trivial rfl (List.forall_mem_nil _) holds

theorem exprStmt_shows (h : Scene source .exprStmt site parts) : Yields (statement site parts) (Shows source site) := by
  simp only [statement, h.is]
  refine .bind first_yields fun p mem => ?_
  have is := List.mem_singleton.1 (h.inside.called mem)
  refine .bind (h.expr .sequence mem is rfl) fun e holds => ?_
  exact h.shows_stmt rfl trivial trivial rfl (List.forall_mem_nil _) holds

/-- The statements that have no parts to read. -/
theorem bareStmt_shows {rule : Rule} (h : Scene source rule site parts)
    (bare : rule = .emptyStmt ∨ rule = .breakStmt ∨ rule = .continueStmt) :
    Yields (statement site parts) (Shows source site) := by
  rcases bare with rfl | rfl | rfl
  all_goals
    simp only [statement, h.is]
    exact h.shows_stmt rfl trivial trivial rfl (List.forall_mem_nil _) .nil

/-- A statement read off a part stands for the match as well. -/
theorem passes_stmt {rule : Rule} (h : Scene source rule site parts) {p : Part} (mem : p ∈ parts)
    (admits : ∀ s, (slotOf rule).Admits (.stmt s)) :
    Yields (do Made.plain (.stmt (← p.toStmt))) (Shows source site) := by
  refine .bind ((h.grounded p mem).toStmt (h.ne_program mem)) fun s holds => ?_
  have between := h.lift_all mem holds _ (List.mem_singleton_self _)
  refine shows_piece (.single ?_) trivial
  exact ⟨h.is ▸ admits s, between.sound, between.start, between.stop, between.room⟩

theorem block_shows (h : Scene source .block site parts) :
    Yields (do Made.plain (.body (← (parts.filter (·.rule ≠ .endOfInput)).mapM Part.toStmt))) (Shows source site) := by
  refine .bind (h.stmts List.filter_sublist) fun body ⟨each, inOrder⟩ => ?_
  have holds := h.lift_each each
  have whole : Child.Between source site.start.offset site.stop.offset 0 (.stmt (.block body site.span)) :=
    h.between rfl trivial trivial rfl rfl (List.forall_mem_singleton.2 inOrder) holds
  refine shows_piece ?_ inOrder
  simp only [Part.nodes, h.is]
  exact (holds.less (Nat.zero_le _)).append (.single whole)

theorem program_shows (h : Scene source .program site parts) :
    Yields (do Made.plain (.body (← (parts.filter (·.rule ≠ .endOfInput)).mapM Part.toStmt))) (Shows source site) := by
  refine .bind (h.stmts List.filter_sublist) fun body ⟨each, inOrder⟩ => ?_
  refine shows_piece ?_ inOrder
  simp only [Part.nodes, h.is]
  exact (h.lift_each each).append .nil

theorem finallyClause_shows (h : Scene source .finallyClause site parts) :
    Yields (do Made.plain (.body (← (← the site parts .block).toBody))) (Shows source site) := by
  refine read_yields (fun p mem _ => h.block mem) fun body ⟨holds, inOrder⟩ => ?_
  have whole : Child.Between source site.start.offset site.stop.offset 0 (.stmt (.block body site.span)) :=
    h.between rfl trivial trivial rfl rfl (List.forall_mem_singleton.2 inOrder) holds
  refine shows_piece ?_ inOrder
  simp only [Part.nodes, h.is]
  exact (holds.less (Nat.zero_le _)).append (.single whole)

end FlowScript.Parse
