import FlowScript.Proofs.Parse.Levels

/-!
# The levels in statements

What assembly makes of a match of a rule of statements is light when its parts are.
-/

namespace FlowScript.Parse
open FlowScript.Grammar (Rule bracketed ruleBody)

variable {source : List Char} {site : Site} {parts : List Part}

/-- A piece whose nodes are light in the match. -/
theorem lights_piece {piece : Piece} (nodes : Lit source site.start.offset 0 (Part.nodes ⟨site, piece, []⟩))
    (inner : Lit source site.start.offset 1 (Part.inner ⟨site, piece, []⟩)) :
    Yields (Made.plain piece) (Lights source site) :=
  .ok ⟨nodes, inner⟩

/-- A node in which nothing stands. -/
theorem light_leaf {n : Node} {start : Nat} (begins : n.offset = start) (entries : n.entries = []) :
    n.Light source start 0 :=
  Node.light_of_offset begins fun _ x mem => by
    rw [entries] at mem
    cases mem

theorem lights_stmt {s : Stmt} (light : (Node.stmt s).Light source site.start.offset 0) :
    Yields (Made.plain (.stmt s)) (Lights source site) :=
  lights_piece (.single (c := ⟨slotOf site.rule, .stmt s⟩) light) .nil

theorem varDecl_lights (h : Scan source .varDecl site parts) : Yields (varDecl site parts) (Lights source site) := by
  refine .bind (P := fun _ => True) (fun _ _ => trivial) fun kind _ => ?_
  refine .bind (.mapM fun p mem => (h.light p (List.mem_of_mem_filter mem)).declarator) fun ds read => ?_
  refine lights_piece (fun c mem => ?_) .nil
  obtain ⟨d, among, rfl⟩ := List.mem_map.1 mem
  obtain ⟨p, inside, light⟩ := exists_of_forall₂ read among
  exact h.flat (List.mem_of_mem_filter inside) light (Nat.zero_le _)

theorem declarator_lights (h : Scan source .declarator site parts) :
    Yields (do Made.plain (.declarator (.mk (← target site parts) (← initial parts) site.span))) (Lights source site) := by
  refine .bind h.target fun q ⟨p, mem, _, light⟩ => ?_
  refine .bind h.initial fun init lightInit => ?_
  have children : Lit source site.start.offset 0 (Declarator.mk q init site.span).children :=
    .cons (h.flat mem light (Nat.zero_le _)) lightInit
  exact lights_piece (.single (c := .declarator _) (Lit.plain children (.refl _ _) rfl)) .nil

theorem forInit_lights (h : Scan source .forInit site parts) : Yields (forInit site parts) (Lights source site) := by
  refine .bind first_yields fun p mem => ?_
  split
  · rename_i kind ds piece
    have light := (h.light p mem).toDecl (kind, ds) (by simp [Part.toDecl, piece])
    exact lights_piece (h.lit mem light (Nat.zero_le _)) .nil
  · exact .bind (h.expr mem) fun e light => lights_piece (.single (c := .expr .sequence e) light) .nil

theorem forLeft_lights (h : Scan source .forLeft site parts) : Yields (forLeft site parts) (Lights source site) := by
  unfold forLeft
  cases found : parts.find? (·.rule = .callExpr) with
  | some p =>
    refine .bind (h.expr (List.mem_of_find?_eq_some found)) fun e light => ?_
    exact lights_piece (.single (c := .expr .call e) light) .nil
  | none =>
    refine .bind (P := fun _ => True) (fun _ _ => trivial) fun kind _ => ?_
    refine .bind h.target fun q ⟨p, mem, _, light⟩ => ?_
    exact lights_piece (.single (c := .pattern q) (h.flat mem light (Nat.zero_le _))) .nil

theorem switchCase_lights (h : Scan source .switchCase site parts) :
    Yields (switchCase site parts) (Lights source site) := by
  refine .bind (h.optional .sequence) fun test lightTest => ?_
  refine .bind (h.stmts fun p mem => List.mem_of_mem_filter mem) fun body each => ?_
  have children : Lit source site.start.offset 0 (SwitchCase.mk test body site.span).children := by
    refine lightTest.append fun c mem => ?_
    obtain ⟨s, among, rfl⟩ := List.mem_map.1 mem
    obtain ⟨p, inside, light⟩ := each s among
    exact h.flat (List.mem_of_mem_filter inside) light (Nat.zero_le _)
  exact lights_piece (.single (c := ⟨.other, .switchCase _⟩) (Lit.plain children (.refl _ _) rfl)) .nil

theorem catchClause_lights (h : Scan source .catchClause site parts) :
    Yields (catchClause site parts) (Lights source site) := by
  have binds : Yields ((parts.find? (·.isTarget)).mapM Part.toPattern) fun param =>
      Lit source site.start.offset 1 (param.toList.map .pattern) := by
    cases found : parts.find? (·.isTarget) with
    | none => exact .ok .nil
    | some p =>
      have mem := List.mem_of_find?_eq_some found
      have isTarget : p.isTarget = true := List.find?_some (p := Part.isTarget) found
      have listed : p.rule ∈ bracketed .catchClause := by
        unfold Part.isTarget at isTarget
        split at isTarget <;> simp_all [bracketed]
      refine .bind (h.light p mem).toPattern fun q light => ?_
      exact .ok (.single (c := .pattern q) (h.deep mem listed light))
  refine .bind binds fun param lightParam => ?_
  refine read_yields (fun p mem _ => h.block mem) fun body lightBody => ?_
  have children : Lit source site.start.offset 1 (CatchClause.mk param body site.span).children :=
    lightParam.append lightBody
  exact lights_piece (.single (c := ⟨.other, .catchClause _⟩) (Lit.brackets children (.refl _ _) rfl)) .nil

/-- The function that is read off the match. -/
theorem Scan.function {rule : Rule} (h : Scan source rule site parts) (listed : Rule.params ∈ bracketed rule)
    {name : Option String} :
    Yields (function site parts name) fun f => (Node.function f).Light source site.start.offset 0 := by
  unfold Parse.function
  have params : Yields (Parse.optional parts .params Part.toParams) fun params =>
      Lit source site.start.offset 1 ((params.getD []).map .pattern) :=
    optional_yields .nil fun p mem is =>
      ((h.light p mem).toParams).imp fun params light => h.litDeep mem (is ▸ listed) light.1
  refine .bind params fun params lightParams => ?_
  refine read_yields (fun p mem _ => h.block mem) fun body lightBody => ?_
  exact .ok (Lit.brackets (lightParams.append lightBody) (.refl _ _) rfl)

theorem varStmt_lights (h : Scan source .varStmt site parts) : Yields (statement site parts) (Lights source site) := by
  simp only [statement, h.scene.is]
  refine .bind first_yields fun p mem => ?_
  refine .bind (h.light p mem).toDecl fun decl light => ?_
  exact lights_stmt (Lit.plain (h.lit mem light (Nat.zero_le _)) (.refl _ _) rfl)

theorem functionDecl_lights (h : Scan source .functionDecl site parts) :
    Yields (statement site parts) (Lights source site) := by
  simp only [statement, h.scene.is]
  refine .bind (h.function (by decide)) fun func light => ?_
  exact lights_stmt (Lit.plain (.single (c := .function func) light) (.refl _ _) rfl)

theorem ifStmt_lights (h : Scan source .ifStmt site parts) : Yields (statement site parts) (Lights source site) := by
  simp only [statement, h.scene.is]
  have other : Yields (optional parts .elseClause Part.toStmt) fun alternate =>
      ∀ s ∈ alternate, Behind source site.start.offset s := by
    refine optional_yields nofun fun p mem is => ?_
    refine (h.behind rfl mem (is ▸ by decide) (is ▸ by decide)).imp fun s light => ?_
    rintro _ ⟨⟩
    exact light
  refine .bind other fun alternate lightAlternate => ?_
  refine .bind (h.optionalDeep .sequence (by decide)) fun test lightTest => ?_
  refine .bind (h.body rfl (by decide)) fun consequent lightConsequent => ?_
  refine lights_stmt (Node.light_of_offset rfl fun _ => List.forall_mem_append.2 ⟨lightTest.bracketed, ?_⟩)
  refine List.forall_mem_map.2 (List.forall_mem_cons.2 ⟨lightConsequent, List.forall_mem_map.2 fun s among => ?_⟩)
  exact lightAlternate s (Option.mem_toList.1 among)

/-- A statement with a head in brackets and another statement behind its keyword. -/
theorem lights_headed {s t : Stmt} {head : List Child} (begins : s.span.start.offset = site.start.offset)
    (entries : s.entries = Entry.bracket.each head ++ [(.chain, .stmt t)]) (inHead : Lit source site.start.offset 1 head)
    (body : Behind source site.start.offset t) : Yields (Made.plain (.stmt s)) (Lights source site) := by
  refine lights_stmt (Node.light_of_offset begins fun _ => ?_)
  have signed : (Node.stmt s).Signed source → Node.KeywordAt source site.start.offset := by
    intro keyword
    exact begins ▸ keyword
  rw [show (Node.stmt s).entries = _ from entries]
  exact List.forall_mem_append.2
    ⟨inHead.bracketed, List.forall_mem_singleton.2 ⟨body.1, fun keyword => body.2 (signed keyword)⟩⟩

theorem forInOf_lights (h : Scan source .forInOfStmt site parts) : Yields (forInOf site parts) (Lights source site) := by
  refine .bind the_yields fun kindPart _ => .bind the_yields ?_
  rintro leftPart ⟨memLeft, isLeft⟩
  split
  · rename_i kind left _ piece
    have lightLeft := h.litDeep memLeft (isLeft ▸ by decide) (h.light leftPart memLeft).nodes
    simp only [Part.nodes, piece] at lightLeft
    refine read_yields (fun p mem is => h.exprDeep mem (is ▸ by decide)) fun right lightRight => ?_
    refine read_yields (fun p mem is => h.behind rfl mem (is ▸ by decide) (is ▸ by decide)) fun body lightBody => ?_
    exact lights_headed rfl rfl (lightLeft.append (.single (c := .expr .sequence right) lightRight)) lightBody
  · exact .error

theorem forStmt_lights (h : Scan source .forStmt site parts) : Yields (statement site parts) (Lights source site) := by
  simp only [statement, h.scene.is]
  refine .bind (P := fun init => Lit source site.start.offset 1 (init.toList.flatMap ForInit.children)) ?_
    fun init lightInit => ?_
  · refine optional_yields .nil fun p mem is => ?_
    have nodes := h.litDeep mem (is ▸ by decide) (h.light p mem).nodes
    split
    · rename_i init piece
      rw [Part.nodes, piece] at nodes
      exact .ok (by simpa using nodes)
    · exact .error
  refine .bind (h.optionalDeep .sequence (by decide)) fun check lightCheck => ?_
  refine .bind (h.optionalDeep .sequence (by decide)) fun update lightUpdate => ?_
  refine .bind (h.body rfl (by decide)) fun body lightBody => ?_
  exact lights_headed rfl rfl ((lightInit.append lightCheck).append lightUpdate) lightBody

theorem whileStmt_lights (h : Scan source .whileStmt site parts) : Yields (statement site parts) (Lights source site) := by
  simp only [statement, h.scene.is]
  refine .bind (h.optionalDeep .sequence (by decide)) fun test lightTest => ?_
  refine .bind (h.body rfl (by decide)) fun body lightBody => ?_
  exact lights_headed rfl rfl lightTest lightBody

theorem doWhileStmt_lights (h : Scan source .doWhileStmt site parts) :
    Yields (statement site parts) (Lights source site) := by
  simp only [statement, h.scene.is]
  refine .bind (h.body rfl (by decide)) fun body lightBody => ?_
  refine .bind (h.optionalDeep .sequence (by decide)) fun test lightTest => ?_
  exact lights_stmt (Node.light_of_offset rfl fun _ => List.forall_mem_cons.2 ⟨lightBody, lightTest.bracketed⟩)

theorem tryStmt_lights (h : Scan source .tryStmt site parts) : Yields (statement site parts) (Lights source site) := by
  simp only [statement, h.scene.is]
  refine read_yields (fun p mem _ => h.block mem) fun tried lightTried => ?_
  refine .bind (P := fun handler => Lit source site.start.offset 0
    (handler.toList.map fun clause => ⟨.other, .catchClause clause⟩)) ?_ fun handler lightHandler => ?_
  · refine optional_yields .nil fun p mem is => ?_
    have nodes := h.lit mem (h.light p mem).nodes (Nat.zero_le _)
    split
    · rename_i clause piece
      rw [Part.nodes, piece] at nodes
      exact .ok nodes
    · exact .error
  refine .bind (P := fun finalizer => Lit source site.start.offset 1 (finalizer.toList.flatten.map .stmt)) ?_
    fun finalizer lightFinalizer => ?_
  · refine optional_yields .nil fun p mem _ => (h.block mem).imp fun body light => ?_
    simpa using light
  refine lights_stmt (Node.light_of_offset rfl fun _ => List.forall_mem_append.2 ⟨?_, lightFinalizer.bracketed⟩)
  exact List.forall_mem_append.2 ⟨lightTried.bracketed, lightHandler.loose⟩

theorem switchStmt_lights (h : Scan source .switchStmt site parts) :
    Yields (statement site parts) (Lights source site) := by
  simp only [statement, h.scene.is]
  refine read_yields (fun p mem is => h.exprDeep mem (is ▸ by decide)) fun value lightValue => ?_
  refine .bind (.mapM (R := fun p clause => (Node.switchCase clause).Light source p.start.offset 0) fun p mem => ?_)
    fun cases read => ?_
  · have nodes := (h.light p (List.mem_of_mem_filter mem)).nodes
    split
    · rename_i clause piece
      rw [Part.nodes, piece] at nodes
      exact .ok (nodes _ (List.mem_singleton_self _))
    · exact .error
  refine lights_stmt (Lit.brackets (.cons (c := .expr .sequence value) lightValue fun c mem => ?_) (.refl _ _) rfl)
  obtain ⟨clause, among, rfl⟩ := List.mem_map.1 mem
  obtain ⟨p, inside, light⟩ := exists_of_forall₂ read among
  obtain ⟨mem, is⟩ := List.mem_filter.1 inside
  exact h.deep mem (of_decide_eq_true is ▸ by decide) light

theorem returnStmt_lights (h : Scan source .returnStmt site parts) :
    Yields (statement site parts) (Lights source site) := by
  simp only [statement, h.scene.is]
  exact .bind (h.optional .sequence) fun value light => lights_stmt (Lit.plain light (.refl _ _) rfl)

theorem throwStmt_lights (h : Scan source .throwStmt site parts) :
    Yields (statement site parts) (Lights source site) := by
  simp only [statement, h.scene.is]
  refine read_yields (fun p mem _ => h.expr mem) fun value light => ?_
  exact lights_stmt (Lit.plain (.single (c := .expr .sequence value) light) (.refl _ _) rfl)

theorem exprStmt_lights (h : Scan source .exprStmt site parts) : Yields (statement site parts) (Lights source site) := by
  simp only [statement, h.scene.is]
  refine .bind first_yields fun p mem => ?_
  refine .bind (h.expr mem) fun e light => ?_
  exact lights_stmt (Lit.plain (.single (c := .expr .sequence e) light) (.refl _ _) rfl)

/-- The statements that have no parts to read. -/
theorem bareStmt_lights {rule : Rule} (h : Scan source rule site parts)
    (bare : rule = .emptyStmt ∨ rule = .breakStmt ∨ rule = .continueStmt) :
    Yields (statement site parts) (Lights source site) := by
  rcases bare with rfl | rfl | rfl
  all_goals
    simp only [statement, h.scene.is]
    exact lights_stmt (light_leaf rfl rfl)

/-- A statement read off a part stands for the match as well. -/
theorem Scan.passes_stmt {rule : Rule} (h : Scan source rule site parts) {p : Part} (mem : p ∈ parts) :
    Yields (do Made.plain (.stmt (← p.toStmt))) (Lights source site) :=
  .bind (h.stmt mem) fun _ light => lights_stmt light

/-- Statements in braces are those of a block, and stand for the match as well. -/
theorem lights_body {body : List Stmt} (inside : site.rule ≠ .program)
    (inner : Lit source site.start.offset 1 (body.map .stmt)) : Yields (Made.plain (.body body)) (Lights source site) := by
  have whole : (Node.stmt (.block body site.span)).Light source site.start.offset 0 :=
    Lit.brackets inner (.refl _ _) rfl
  refine lights_piece ?_ ?_
  · simp only [Part.nodes, inside, if_false]
    exact inner.less.append (.single (c := .stmt _) whole)
  · simpa only [Part.inner, inside, if_false] using inner

theorem block_lights (h : Scan source .block site parts) :
    Yields (do Made.plain (.body (← (parts.filter (·.rule ≠ .endOfInput)).mapM Part.toStmt))) (Lights source site) := by
  refine .bind (h.stmts fun p mem => List.mem_of_mem_filter mem) fun body each => ?_
  refine lights_body (h.scene.is ▸ nofun) (List.forall_mem_map.2 fun s among => ?_)
  obtain ⟨p, inside, light⟩ := each s among
  have mem := List.mem_of_mem_filter inside
  exact h.deep mem (h.scene.inside.called mem) light

theorem program_lights (h : Scan source .program site parts) :
    Yields (do Made.plain (.body (← (parts.filter (·.rule ≠ .endOfInput)).mapM Part.toStmt))) (Lights source site) := by
  refine .bind (h.stmts fun p mem => List.mem_of_mem_filter mem) fun body each => ?_
  refine lights_piece ?_ ?_
  · simp only [Part.nodes, h.scene.is]
    refine .append (fun c mem => ?_) .nil
    obtain ⟨s, among, rfl⟩ := List.mem_map.1 mem
    obtain ⟨p, inside, light⟩ := each s among
    exact h.flat (List.mem_of_mem_filter inside) light (Nat.zero_le _)
  · simpa [Part.inner, h.scene.is] using Lit.nil

theorem finallyClause_lights (h : Scan source .finallyClause site parts) :
    Yields (do Made.plain (.body (← (← the site parts .block).toBody))) (Lights source site) := by
  exact read_yields (fun p mem _ => h.block mem) fun body inner => lights_body (h.scene.is ▸ nofun) inner

end FlowScript.Parse
