import FlowScript.Proofs.Parse.ExpressionNodes
import FlowScript.Proofs.Parse.StatementLevels

/-!
# The levels in exports, patterns and expressions

What assembly makes of a match of a rule of modules, patterns or expressions is light when its parts are. Operands and
postfixes are folded from the left: what has been read so far begins with the match.
-/

namespace FlowScript.Parse
open FlowScript.Grammar (Rule bracketed ruleBody)
open FlowScript.Node (NoLess)

variable {source : List Char} {site : Site} {parts : List Part}

theorem lights_expr {e : Expr} (light : (Node.expr e).Light source site.start.offset 0)
    (plain : site.rule ≠ .indexAccess ∧ site.rule ≠ .optionalIndex) :
    Yields (Made.plain (.expr e)) (Lights source site) := by
  refine lights_piece (.single (c := ⟨slotOf site.rule, .expr e⟩) light) ?_
  simp only [Part.inner]
  rw [if_neg (not_or.2 plain)]
  exact .nil

theorem lights_pattern {q : Pattern} (light : (Node.pattern q).Light source site.start.offset 0) :
    Yields (Made.plain (.pattern q)) (Lights source site) :=
  lights_piece (.single (c := .pattern q) light) .nil

/-! ## Modules -/

theorem specifiers_lights {stop : Option Nat} : Yields (specifiers site stop parts) (Lights source site) := by
  have empty (binds : Bool) (edits : List Edit) : Lights source site (.specifiers binds, edits) := ⟨.nil, .nil⟩
  unfold specifiers
  dsimp only
  split
  · exact .ok (empty _ _)
  · split <;> exact .ok (empty _ _)

theorem importDecl_lights : Yields (importDecl site parts) (Lights source site) :=
  .ok ⟨.single (c := ⟨slotOf site.rule, .stmt _⟩) (light_leaf rfl rfl), .nil⟩

theorem exportDecl_lights (h : Scan source .exportDecl site parts) :
    Yields (exportDecl site parts) (Lights source site) := by
  have made {s : Stmt} (light : (Node.stmt s).Light source site.start.offset 0) (edits : List Edit) :
      Lights source site (.stmt s, edits) := ⟨.single (c := ⟨slotOf site.rule, .stmt s⟩) light, .nil⟩
  have exported {part : Part} {declaration : Stmt} (mem : part ∈ parts) (piece : part.piece = .stmt declaration) :
      (Node.stmt declaration).Light source site.start.offset 0 := by
    have nodes := h.lit mem (h.light part mem).nodes (Nat.zero_le _)
    simp only [Part.nodes, piece] at nodes
    exact nodes ⟨slotOf part.rule, .stmt declaration⟩ (List.mem_singleton_self _)
  unfold exportDecl
  dsimp only
  split
  · rename_i part only
    have mem : part ∈ parts := List.mem_of_mem_filter (only ▸ List.mem_singleton_self part)
    split
    · exact .ok (made (light_leaf rfl rfl) _)
    · exact .ok (made (light_leaf rfl rfl) _)
    · exact .ok (made (light_leaf rfl rfl) _)
    · rename_i piece
      refine .ok (made (Lit.plain ?_ (.refl _ _) rfl) _)
      exact .single (exported mem piece)
    · rename_i piece
      refine .ok (made (Lit.plain ?_ (.refl _ _) rfl) _)
      exact .single (exported mem piece)
    · exact .error
  · exact .error

theorem exportDefault_lights (h : Scan source .exportDefault site parts) :
    Yields (exportDefault site parts) (Lights source site) := by
  unfold exportDefault
  cases found : parts.find? (!·.isKeyword .defaultWord) with
  | none => exact .error
  | some part =>
    have mem := List.mem_of_find?_eq_some found
    dsimp only
    split
    · rename_i declaration piece
      have nodes := h.lit mem (h.light part mem).nodes (Nat.zero_le _)
      rw [Part.nodes, piece] at nodes
      exact lights_stmt (nodes _ (List.mem_singleton_self _))
    · refine .bind (h.light part mem).toExpr fun e light => ?_
      have whole : (Node.stmt (.expr e part.span)).Light source part.start.offset 0 :=
        Lit.plain (.single (c := .expr .sequence e) light) (.refl _ _) rfl
      exact lights_stmt (h.flat mem whole (Nat.zero_le _))

/-! ## Patterns -/

/-- A binding with its default, if it has one. -/
theorem withDefault_lights {rule : Rule} (h : Scan source rule site parts) {q : Pattern}
    (light : (Node.pattern q).Light source site.start.offset 0) :
    Yields (do Made.plain (.pattern (withDefault site q (← initial parts)))) (Lights source site) := by
  refine .bind h.initial fun value lightValue => ?_
  cases value with
  | none => exact lights_pattern light
  | some e => exact lights_pattern (Lit.plain (.cons (c := .pattern q) light lightValue) (.refl _ _) rfl)

theorem Scan.target_flat {rule : Rule} (h : Scan source rule site parts) :
    Yields (Parse.target site parts) fun q => (Node.pattern q).Light source site.start.offset 0 :=
  h.target.imp fun _ ⟨_, mem, _, light⟩ => h.flat mem light (Nat.zero_le _)

theorem param_lights (h : Scan source .param site parts) : Yields (param site parts) (Lights source site) := by
  unfold param
  cases found : parts.find? (·.rule = .restParam) with
  | none => exact .bind h.target_flat fun q light => withDefault_lights h light
  | some p =>
    have mem := List.mem_of_find?_eq_some found
    refine .bind (h.light p mem).toPattern fun q light => ?_
    exact withDefault_lights h (h.flat mem light (Nat.zero_le _))

theorem bindingElement_lights (h : Scan source .bindingElement site parts) :
    Yields (do Made.plain (.pattern (withDefault site (← target site parts) (← initial parts)))) (Lights source site) :=
  .bind h.target_flat fun _ light => withDefault_lights h light

theorem restBinding_lights {rule : Rule} (h : Scan source rule site parts) :
    Yields (restBinding site parts) (Lights source site) :=
  .bind h.target_flat fun q light => lights_pattern (Lit.plain (.single (c := .pattern q) light) (.refl _ _) rfl)

theorem Scan.key {rule : Rule} (h : Scan source rule site parts) {p : Part} (mem : p ∈ parts) :
    Yields p.toKey fun key => Lit source site.start.offset 0 key.children :=
  (h.light p mem).toKey.imp fun _ light => h.lit mem light (Nat.zero_le _)

theorem patternPair_lights (h : Scan source .patternPair site parts) :
    Yields (patternPair site parts) (Lights source site) := by
  refine read_yields (fun p mem _ => h.key mem) fun key lightKey => ?_
  refine read_yields (fun p mem _ => (h.light p mem).toPattern.imp fun _ light => h.flat mem light (Nat.zero_le _))
    fun q light => ?_
  exact lights_piece (lightKey.append (.single (c := .pattern q) light)) .nil

theorem patternShorthand_lights (h : Scan source .patternShorthand site parts) :
    Yields (do
      let name ← the site parts .identifier
      Made.plain (.patternProp (.shorthand name.word (← initial parts)))) (Lights source site) :=
  .bind the_yields fun _ _ => .bind h.initial fun _ light => lights_piece light .nil

theorem objectPattern_lights (h : Scan source .objectPattern site parts) :
    Yields (do Made.plain (.pattern (.object (← parts.mapM patternProp) site.span))) (Lights source site) := by
  refine .bind (.mapM fun p mem => (h.light p mem).patternProp) fun props read => ?_
  refine lights_pattern (Lit.brackets (.flatMap fun prop mem => ?_) (.refl _ _) rfl)
  obtain ⟨p, inside, light⟩ := exists_of_forall₂ read mem
  have all : ∀ r ∈ (ruleBody .objectPattern).calls, r ∈ bracketed .objectPattern := by decide
  exact h.litDeep inside (all _ (h.scene.inside.called inside)) light

theorem arrayPattern_lights (h : Scan source .arrayPattern site parts) :
    Yields (do Made.plain (.pattern (.array (← slots .patternHole (·.toPattern) parts) site.span)))
      (Lights source site) := by
  refine .bind (slots_yields fun p mem _ => (h.light p mem).toPattern) fun elements each => ?_
  refine lights_pattern (Lit.brackets (fun c mem => ?_) (.refl _ _) rfl)
  obtain ⟨q, among, rfl⟩ := List.mem_map.1 mem
  obtain ⟨p, inside, light⟩ := each q among
  have all : ∀ r ∈ (ruleBody .arrayPattern).calls, r ∈ bracketed .arrayPattern := by decide
  exact h.deep inside (all _ (h.scene.inside.called inside)) light

theorem params_lights (h : Scan source .params site parts) :
    Yields (do Made.plain (.params (← parts.mapM Part.toPattern))) (Lights source site) := by
  refine .bind (.mapM fun p mem => (h.light p mem).toPattern) fun params read => ?_
  refine lights_piece (fun c mem => ?_) (by simpa [Part.inner, h.scene.is] using Lit.nil)
  obtain ⟨q, among, rfl⟩ := List.mem_map.1 mem
  obtain ⟨p, inside, light⟩ := exists_of_forall₂ read among
  exact h.flat inside light (Nat.zero_le _)

theorem propertyKey_lights (h : Scan source .propertyKey site parts) :
    Yields (propertyKey site parts) (Lights source site) := by
  refine .bind first_yields fun p mem => ?_
  split
  · exact lights_piece .nil .nil
  · exact lights_piece .nil .nil
  · exact lights_piece .nil .nil
  · exact .bind (h.expr mem) fun e light => lights_piece (.single (c := .expr .assign e) light) .nil
  · exact .error

/-! ## Operators -/

/-- A span merged of two begins where one of them does. -/
theorem noLess_merge {a b : Span} {start : Nat} (first : NoLess source start a.start.offset)
    (second : NoLess source start b.start.offset) : NoLess source start (a.merge b).start.offset := by
  rw [Span.merge]
  dsimp only
  split
  · exact first
  · exact second

/-- A node of two operands is light where both are. -/
theorem binary_light {op : BinaryOp} {left right : Expr} {start : Nat} (hl : (Node.expr left).Light source start 0)
    (hr : (Node.expr right).Light source start 0) :
    (Node.expr (.binary op left right (left.span.merge right.span))).Light source start 0 := by
  refine Lit.plain ?_ (noLess_merge hl.noLess hr.noLess) rfl
  exact .cons (c := ⟨op.leftSlot, .expr left⟩) hl (.single (c := ⟨op.rightSlot, .expr right⟩) hr)

/-- Operands are folded from the left. -/
theorem foldOperands_lights {tier : Grammar.Level} (h : Scan source (.level tier) site parts) (left : Expr)
    {rest : List Part} (stop : Nat) (edits : List Edit) (among : ∀ p ∈ rest, p ∈ parts)
    (light : (Node.expr left).Light source site.start.offset 0) :
    Yields (foldOperands left stop edits rest) (Lights source site) := by
  have made (e : Expr) (edits : List Edit) (light : (Node.expr e).Light source site.start.offset 0) :
      Lights source site (.expr e, edits) := by
    refine ⟨.single (c := ⟨slotOf site.rule, .expr e⟩) light, ?_⟩
    simpa [Part.inner, h.scene.is] using Lit.nil
  fun_induction foldOperands left stop edits rest with
  | case1 => exact .ok (made _ _ light)
  | case2 => exact .ok (made _ _ light)
  | case3 => exact .error
  | case4 left stop edits part next rest is ih => exact ih (fun p mem => among p (List.mem_cons_of_mem _ mem)) light
  | case5 left stop edits part next rest op is ih =>
    refine .bind (h.expr (among next (by simp))) fun right lightRight => ?_
    exact ih right (fun p mem => among p (by simp [mem])) (binary_light light lightRight)
  | case6 => exact .error

theorem operands_lights {tier : Grammar.Level} (h : Scan source (.level tier) site parts) :
    Yields (operands site parts) (Lights source site) := by
  unfold operands
  split
  · rename_i part rest
    refine .bind (h.expr (List.mem_cons_self ..)) fun left light => ?_
    exact foldOperands_lights h left _ _ (fun p mem => List.mem_cons_of_mem _ mem) light
  · exact .error

/-- The expression of a part stands for the match as well. -/
theorem Scan.passes_expr {rule : Rule} (h : Scan source rule site parts) {p : Part} (mem : p ∈ parts)
    (plain : rule ≠ .indexAccess ∧ rule ≠ .optionalIndex) :
    Yields (do Made.plain (.expr (← p.toExpr))) (Lights source site) :=
  .bind (h.expr mem) fun _ light => lights_expr light (h.scene.is ▸ plain)

theorem unary_lights (h : Scan source .unaryExpr site parts) : Yields (unary site parts) (Lights source site) := by
  unfold unary
  split
  · rename_i op operand
    refine .bind (h.expr (by simp)) fun e light => ?_
    have children : Lit source site.start.offset 0 [.expr .unary e] := .single light
    split
    · exact lights_expr (Lit.plain children (.refl _ _) rfl) (h.scene.is ▸ by decide)
    · exact lights_expr (Lit.plain children (.refl _ _) rfl) (h.scene.is ▸ by decide)
    · exact .error
  · exact h.passes_expr (List.mem_singleton_self _) (by decide)
  · exact .error

/-! ## Expressions of one rule -/

theorem expression_lights (h : Scan source .expression site parts) :
    Yields (expression site parts) (Lights source site) := by
  simp only [expression, h.scene.is]
  refine .bind (.mapM fun p mem => h.expr mem) fun es read => ?_
  have light : ∀ e ∈ es, (Node.expr e).Light source site.start.offset 0 := fun e mem => by
    obtain ⟨p, -, light⟩ := exists_of_forall₂ read mem
    exact light
  obtain _ | ⟨e, _ | ⟨e', es⟩⟩ := es
  · exact .error
  · exact lights_expr (light e (List.mem_singleton_self e)) (h.scene.is ▸ by decide)
  · refine lights_expr (Lit.plain (fun c mem => ?_) (.refl _ _) rfl) (h.scene.is ▸ by decide)
    obtain ⟨e, inside, rfl⟩ := List.mem_map.1 mem
    exact light e inside

theorem assignExpr_lights (h : Scan source .assignExpr site parts) :
    Yields (expression site parts) (Lights source site) := by
  rcases parts with _ | ⟨t, _ | ⟨op, _ | ⟨v, _ | _⟩⟩⟩ <;> simp only [expression, h.scene.is]
  case cons.nil => exact h.passes_expr (List.mem_singleton_self t) (by decide)
  case cons.cons.cons.nil =>
    refine .bind (h.expr (by simp)) fun t lightTarget => ?_
    refine .bind (h.expr (by simp)) fun v lightValue => ?_
    refine lights_expr (Lit.plain ?_ (.refl _ _) rfl) (h.scene.is ▸ by decide)
    exact .cons (c := .expr .conditional t) lightTarget (.single (c := .expr .assign v) lightValue)
  all_goals exact .error

theorem conditionalExpr_lights (h : Scan source .conditionalExpr site parts) :
    Yields (expression site parts) (Lights source site) := by
  rcases parts with _ | ⟨t, _ | ⟨y, _ | ⟨n, _ | _⟩⟩⟩ <;> simp only [expression, h.scene.is]
  case cons.nil => exact h.passes_expr (List.mem_singleton_self t) (by decide)
  case cons.cons.cons.nil =>
    have branch {p : Part} (mem : p ∈ [y, n]) : Yields p.toExpr fun e =>
        (Node.expr e).Light source site.start.offset 0 ∧ (Node.expr e).Hangs source site.start.offset :=
      (h.light p (List.mem_cons_of_mem t mem)).toExpr.imp fun e light =>
        ⟨h.flat (List.mem_cons_of_mem t mem) light (Nat.zero_le _), light.chained (h.branch rfl p mem)⟩
    refine .bind (h.expr (by simp)) fun t lightTest => ?_
    refine .bind (branch (by simp)) fun y lightYes => ?_
    refine .bind (branch (by simp)) fun n lightNo => ?_
    refine lights_expr (Node.light_of_offset rfl fun _ => List.forall_mem_cons.2 ⟨lightTest, ?_⟩) (h.scene.is ▸ by decide)
    refine List.forall_mem_map.2 (List.forall_mem_cons.2 ⟨?yes, List.forall_mem_singleton.2 ?no⟩)
    case yes => exact ⟨lightYes.1, fun _ => lightYes.2⟩
    case no => exact ⟨lightNo.1, fun _ => lightNo.2⟩
  all_goals exact .error

theorem exponentExpr_lights (h : Scan source .exponentExpr site parts) :
    Yields (expression site parts) (Lights source site) := by
  rcases parts with _ | ⟨l, _ | ⟨op, _ | ⟨r, _ | _⟩⟩⟩ <;> simp only [expression, h.scene.is]
  case cons.nil => exact h.passes_expr (List.mem_singleton_self l) (by decide)
  case cons.cons.cons.nil =>
    refine .bind (h.expr (by simp)) fun l lightLeft => ?_
    refine .bind (h.expr (by simp)) fun r lightRight => ?_
    refine lights_expr (Lit.plain ?_ (.refl _ _) rfl) (h.scene.is ▸ by decide)
    exact .cons (c := ⟨BinaryOp.exp.leftSlot, .expr l⟩) lightLeft
      (.single (c := ⟨BinaryOp.exp.rightSlot, .expr r⟩) lightRight)
  all_goals exact .error

theorem awaitExpr_lights (h : Scan source .awaitExpr site parts) :
    Yields (expression site parts) (Lights source site) := by
  simp only [expression, h.scene.is]
  refine read_yields (fun p mem _ => h.expr mem) fun e light => ?_
  exact lights_expr (Lit.plain (.single (c := .expr .unary e) light) (.refl _ _) rfl) (h.scene.is ▸ by decide)

theorem postfixExpr_lights (h : Scan source .postfixExpr site parts) :
    Yields (expression site parts) (Lights source site) := by
  rcases parts with _ | ⟨e, _ | ⟨op, _ | _⟩⟩ <;> simp only [expression, h.scene.is]
  case cons.nil => exact h.passes_expr (List.mem_singleton_self e) (by decide)
  case cons.cons.nil =>
    refine .bind (h.expr (by simp)) fun e light => ?_
    exact lights_expr (Lit.plain (.single (c := .expr .call e) light) (.refl _ _) rfl) (h.scene.is ▸ by decide)
  all_goals exact .error

theorem parenExpr_lights (h : Scan source .parenExpr site parts) :
    Yields (expression site parts) (Lights source site) := by
  simp only [expression, h.scene.is]
  refine .bind first_yields fun p mem => ?_
  refine .bind (h.exprDeep mem (h.scene.inside.called mem)) fun e light => ?_
  exact lights_expr (Lit.brackets (.single (c := .expr .sequence e) light) (.refl _ _) rfl) (h.scene.is ▸ by decide)

theorem spreadElem_lights (h : Scan source .spreadElem site parts) :
    Yields (expression site parts) (Lights source site) := by
  simp only [expression, h.scene.is]
  refine .bind first_yields fun p mem => ?_
  refine .bind (h.expr mem) fun e light => ?_
  exact lights_expr (Lit.plain (.single (c := .expr .assign e) light) (.refl _ _) rfl) (h.scene.is ▸ by decide)

theorem functionExpr_lights (h : Scan source .functionExpr site parts) :
    Yields (expression site parts) (Lights source site) := by
  simp only [expression, h.scene.is]
  refine .bind (h.function (by decide)) fun func light => ?_
  exact lights_expr (Lit.plain (.single (c := .function func) light) (.refl _ _) rfl) (h.scene.is ▸ by decide)

/-! ## Literals -/

/-- The nodes in a template count no level, whatever they are. -/
theorem template_lights (is : site.rule = .template ∨ site.rule = .taggedTemplate) {quasis : List String}
    {exprs : List Expr} {span : Span} (begins : span.start.offset = site.start.offset) :
    Yields (Made.plain (.expr (.template quasis exprs span))) (Lights source site) := by
  refine lights_expr (Node.light_of_offset begins fun visible => absurd ⟨quasis, exprs, span, rfl⟩ visible) ?_
  rcases is with is | is <;> rw [is] <;> decide

theorem arrayLit_lights (h : Scan source .arrayLit site parts) :
    Yields (expression site parts) (Lights source site) := by
  have all : ∀ r ∈ (ruleBody .arrayLit).calls, r ∈ bracketed .arrayLit := by decide
  simp only [expression, h.scene.is]
  refine .bind (slots_yields fun p mem _ => h.exprDeep mem (all _ (h.scene.inside.called mem))) fun elements each => ?_
  refine lights_expr (Lit.brackets (fun c mem => ?_) (.refl _ _) rfl) (h.scene.is ▸ by decide)
  obtain ⟨e, among, rfl⟩ := List.mem_map.1 mem
  obtain ⟨p, -, light⟩ := each e among
  exact light

theorem objectLit_lights (h : Scan source .objectLit site parts) :
    Yields (expression site parts) (Lights source site) := by
  have all : ∀ r ∈ (ruleBody .objectLit).calls, r ∈ bracketed .objectLit := by decide
  simp only [expression, h.scene.is]
  refine .bind (.mapM fun p mem => (h.light p mem).objectProp) fun props read => ?_
  refine lights_expr (Lit.brackets (.flatMap fun prop mem => ?_) (.refl _ _) rfl) (h.scene.is ▸ by decide)
  obtain ⟨p, inside, light⟩ := exists_of_forall₂ read mem
  exact h.litDeep inside (all _ (h.scene.inside.called inside)) light

theorem objectPair_lights (h : Scan source .objectPair site parts) :
    Yields (do
      let key ← (← the site parts .propertyKey).toKey
      Made.plain (.objectProp (.keyValue key (← (← the site parts .assignExpr).toExpr)))) (Lights source site) := by
  refine read_yields (fun p mem _ => h.key mem) fun key lightKey => ?_
  refine read_yields (fun p mem _ => h.expr mem) fun value light => ?_
  exact lights_piece (lightKey.append (.single (c := .expr .assign value) light)) .nil

theorem objectMethod_lights (h : Scan source .objectMethod site parts) :
    Yields (objectMethod site parts) (Lights source site) := by
  refine read_yields (fun p mem _ => h.key mem) fun key lightKey => ?_
  refine .bind (h.function (by decide)) fun func light => ?_
  exact lights_piece (lightKey.append (.single (c := .function func) light)) .nil

theorem objectShorthand_lights (h : Scan source .objectShorthand site parts) :
    Yields (do
      let name ← the site parts .identifier
      Made.plain (.objectProp (.shorthand name.word (← initial parts)))) (Lights source site) :=
  .bind the_yields fun _ _ => .bind h.initial fun _ light => lights_piece light .nil

/-! ## Functions and calls -/

theorem arrow_lights (h : Scan source .arrowFn site parts) : Yields (arrow site parts) (Lights source site) := by
  refine read_yields (P := fun params => ∀ x ∈ (paramsEntry params).each (params.map .pattern),
    Node.Admits source site.start.offset True x) ?_ fun params lightParams => ?_
  · intro p mem is
    refine (h.light p mem).toParams.imp fun params ⟨light, deep⟩ x inside => ?_
    obtain ⟨c, among, rfl⟩ := List.mem_map.1 inside
    cases way : paramsEntry params with
    | bracket => exact h.lit mem (deep is way) (Nat.le_refl _) c among
    | plain => exact h.lit mem light (Nat.zero_le _) c among
    | chain =>
      unfold paramsEntry at way
      split at way <;> cases way
  refine .bind the_yields fun body ⟨mem, isBody⟩ => ?_
  split
  · rename_i whole piece
    obtain ⟨nodes, inner⟩ := h.light body mem
    simp only [Part.nodes, Part.inner, piece] at nodes inner
    refine lights_expr (Node.light_of_offset rfl fun _ x listed => ?_) (h.scene.is ▸ by decide)
    rcases List.mem_append.1 listed with param | inBody
    · exact lightParams x param
    · cases whole with
      | block statements =>
        obtain ⟨c, among, rfl⟩ := List.mem_map.1 inBody
        exact h.lit mem inner (Nat.le_refl _) c among
      | expr e =>
        obtain rfl := List.mem_singleton.1 inBody
        have light := nodes _ (List.mem_singleton_self _)
        exact ⟨h.flat mem light (Nat.zero_le _), fun _ => light.chained (h.arrow rfl body mem isBody)⟩
  · exact .error

theorem arrowParams_lights (h : Scan source .arrowParams site parts) :
    Yields (arrowParams parts) (Lights source site) := by
  have made {params : List Pattern} (light : Lit source site.start.offset 0 (params.map .pattern))
      (deep : paramsEntry params = .bracket → Lit source site.start.offset 1 (params.map .pattern)) :
      Yields (Made.plain (.params params)) (Lights source site) := by
    refine lights_piece light ?_
    simp only [Part.inner]
    split
    · rename_i both
      exact deep both.2
    · exact .nil
  rcases h.scene.inside.alt with name | listed
  · obtain ⟨p, rfl, sound, is⟩ := name.call
    simp only [arrowParams, is]
    refine .bind (P := fun q => (Node.pattern q).Light source site.start.offset 0 ∧ ∃ name span, q = .ident name span) ?_ ?_
    · have mem := List.mem_singleton_self p
      refine ((h.light p mem).toPattern.imp fun q light => h.flat mem light (Nat.zero_le _)).and fun q read => ?_
      have token := Piece.eq_token (sound.role is rfl)
      simp only [Part.toPattern, is, token] at read
      cases read
      exact ⟨_, _, rfl⟩
    · rintro _ ⟨light, name, span, rfl⟩
      exact made (.single (c := .pattern _) light) (by simp [paramsEntry])
  · unfold arrowParams
    split
    · exact made .nil fun _ => .nil
    · rename_i p ps
      have mem : p ∈ p :: ps := List.mem_cons_self ..
      have is : p.rule = .params := List.mem_singleton.1 (listed.called mem)
      simp only [is]
      refine .bind (h.light p mem).toParams fun params read => ?_
      have deep := h.litDeep mem (is ▸ by decide) read.1
      exact made deep.less fun _ => deep

theorem arrowBody_lights (h : Scan source .arrowBody site parts) :
    Yields (arrowBody site parts) (Lights source site) := by
  refine .bind first_yields fun p mem => ?_
  split
  · rename_i body piece
    have light := (h.light p mem).toBody (h.scene.ne_program mem) body (by simp [Part.toBody, piece])
    have inner := h.lit mem light (Nat.le_refl _)
    exact lights_piece inner.less inner
  · refine .bind (h.expr mem) fun e light => ?_
    exact lights_piece (.single (c := .expr .assign e) light) .nil

theorem argList_lights (h : Scan source .argList site parts) :
    Yields (do Made.plain (.args (← parts.mapM Part.toExpr))) (Lights source site) := by
  refine .bind (.mapM fun p mem => h.expr mem) fun args read => ?_
  refine lights_piece (fun c mem => ?_) (by simpa [Part.inner, h.scene.is] using Lit.nil)
  obtain ⟨e, among, rfl⟩ := List.mem_map.1 mem
  obtain ⟨p, -, light⟩ := exists_of_forall₂ read among
  exact light

theorem args_lights {rule : Rule} (h : Scan source rule site parts) (listed : Rule.argList ∈ bracketed rule) :
    Yields (args parts) (Lights source site) := by
  have inside : Yields (optional parts .argList Part.toArgs) fun args =>
      Lit source site.start.offset 1 ((args.getD []).map .item) :=
    optional_yields .nil fun p mem is =>
      (h.light p mem).toArgs.imp fun _ light => h.litDeep mem (is ▸ listed) light.1
  refine .bind inside fun args light => lights_piece light.less ?_
  simp only [Part.inner]
  split
  · exact .nil
  · exact light

theorem newExpr_lights (h : Scan source .newExpr site parts) : Yields (newExpr site parts) (Lights source site) := by
  refine read_yields (fun p mem _ => h.expr mem) fun callee lightCallee => ?_
  have listed : Yields (optional parts .newArgs Part.toArgs) fun args =>
      Lit source site.start.offset 1 ((args.getD []).map .item) :=
    optional_yields .nil fun p mem is =>
      (h.light p mem).toArgs.imp fun _ light => h.lit mem (light.2 (is ▸ nofun)) (Nat.le_refl _)
  refine .bind listed fun args lightArgs => ?_
  refine lights_expr (Node.light_of_offset rfl fun _ => ?_) (h.scene.is ▸ by decide)
  exact List.forall_mem_cons.2 ⟨lightCallee, lightArgs.bracketed⟩

/-! ## Postfixes -/

/-- A node that a postfix makes of what has been read so far and of the postfix, where no sign stands. -/
theorem postfix_light {left e : Expr} {q : Part} {others : List (Entry × Child)} {start : Nat}
    (hl : (Node.expr left).Light source start 0) (begins : NoLess source start q.start.offset)
    (span : e.span = left.span.merge q.span) (entries : (Node.expr e).entries = (.plain, .expr .call left) :: others)
    (light : ∀ x ∈ others, x.1 ≠ .chain ∧ Node.Admits source start True x) : (Node.expr e).Light source start 0 := by
  -- `Admits` depends on whether a sign of the node counts only for what stands behind a sign
  have each : ∀ x ∈ (Node.expr e).entries, x.1 ≠ .chain ∧ Node.Admits source start True x := by
    rw [entries]
    exact List.forall_mem_cons.2 ⟨⟨nofun, hl⟩, light⟩
  refine Node.light_of_entries ?_ (fun x mem sign => absurd sign (each x mem).1) fun _ x mem => ?_
  · rw [Node.offset, show (Node.expr e).span = left.span.merge q.span from span]
    exact noLess_merge hl.noLess begins
  · obtain ⟨noSign, admits⟩ := each x mem
    obtain ⟨entry, c⟩ := x
    cases entry with
    | bracket | plain => exact admits
    | chain => exact absurd rfl noSign

/-- What stands in brackets of a postfix. -/
theorem brackets_light {cs : List Child} {start : Nat} (light : Lit source start 1 cs) :
    ∀ x ∈ Entry.bracket.each cs, x.1 ≠ .chain ∧ Node.Admits source start True x :=
  List.forall_mem_map.2 fun c among => ⟨nofun, light c among⟩

theorem applyPostfix_lights {rule : Rule} (h : Scan source rule site parts) {left : Expr} {q : Part} (mem : q ∈ parts)
    (unlisted : bracketed rule = []) (light : (Node.expr left).Light source site.start.offset 0) :
    Yields (applyPostfix left q) fun e => (Node.expr e).Light source site.start.offset 0 := by
  have begins := h.noLess mem (by rw [unlisted]; exact List.not_mem_nil)
  have args (notList : q.rule ≠ .argList) : Yields q.toArgs fun args =>
      Lit source site.start.offset 1 (args.map .item) :=
    (h.light q mem).toArgs.imp fun _ light => h.lit mem (light.2 notList) (Nat.le_refl _)
  have index (is : q.rule = .indexAccess ∨ q.rule = .optionalIndex) : Yields q.toExpr fun e =>
      (Node.expr e).Light source site.start.offset 1 :=
    ((h.light q mem).toIndex is).imp fun _ light => h.flat mem light (Nat.le_refl _)
  unfold applyPostfix
  dsimp only
  split
  case h_1 is | h_2 is =>
    exact .bind (args (is ▸ nofun)) fun _ inner => .ok (postfix_light light begins rfl rfl (brackets_light inner))
  case h_3 | h_4 =>
    refine .bind (P := fun _ => True) (fun _ _ => trivial) fun name _ => .ok ?_
    exact postfix_light light begins rfl rfl nofun
  case h_5 is | h_6 is =>
    refine .bind (index (by simp [is])) fun e inner => .ok ?_
    exact postfix_light light begins rfl rfl (brackets_light (.single (c := .expr .sequence e) inner))
  case h_7 => exact .ok light
  case h_8 =>
    refine .bind (h.expr mem) fun e quasi => .ok ?_
    exact postfix_light light begins rfl rfl (List.forall_mem_singleton.2 ⟨nofun, quasi⟩)
  case h_9 => exact .error

/-- Postfixes are applied from the left. -/
theorem postfixes_lights {rule : Rule} (h : Scan source rule site parts) (unlisted : bracketed rule = [])
    (plain : rule ≠ .indexAccess ∧ rule ≠ .optionalIndex) : Yields (postfixes site parts) (Lights source site) := by
  have fold {left : Expr} {rest : List Part} (among : ∀ q ∈ rest, q ∈ parts)
      (light : (Node.expr left).Light source site.start.offset 0) :
      Yields (rest.foldlM applyPostfix left) fun e => (Node.expr e).Light source site.start.offset 0 := by
    induction rest generalizing left with
    | nil => exact .ok light
    | cons q qs ih =>
      refine .bind (applyPostfix_lights h (among q (List.mem_cons_self ..)) unlisted light) fun e light => ?_
      exact ih (fun p mem => among p (List.mem_cons_of_mem _ mem)) light
  unfold postfixes
  split
  · rename_i part rest
    refine .bind (h.expr (List.mem_cons_self ..)) fun e light => ?_
    refine .bind (fold (fun p mem => List.mem_cons_of_mem _ mem) light) fun whole light => ?_
    exact lights_expr light (h.scene.is ▸ plain)
  · exact .error

end FlowScript.Parse
