import FlowScript.Proofs.Parse.Made

/-!
# Assembling patterns and expressions

Every match of a rule of patterns or expressions becomes the piece that the rule stands for. On the levels of operators
a type after an operand is the only part with an edit of its own.
-/

namespace FlowScript.Parse
open FlowScript.Grammar (Rule ruleBody)

variable {e : Grammar.Body} {parts : List Part} {site : Site}

/-- Elements are read wherever there is no hole. -/
theorem slots_succeeds {α : Type} {hole : Rule} {read : Part → Assembled α}
    (reads : ∀ p ∈ parts, p.rule ≠ hole → Succeeds (read p)) : Succeeds (slots hole read parts) := by
  refine .bind (Succeeds.mapM fun p mem => ?_) fun elements _ => ?_
  · split
    · exact .ok trivial
    · rename_i element
      exact (reads p mem element).map fun _ _ => trivial
  · split <;> exact .ok trivial

/-! ## Patterns -/

theorem patternPair_fills (is : site.rule = .patternPair) (h : Inside (ruleBody .patternPair) parts) :
    Gives (patternPair site parts) (Fills site parts) := by
  refine h.read rfl (fun _ sound is => sound.toKey is rfl) fun key => ?_
  refine h.read rfl (fun _ sound is => sound.toPattern is rfl) fun value => ?_
  exact plain_fills is (.of_role rfl rfl)

theorem restBinding_fills (is : site.rule = .restParam ∨ site.rule = .restPattern)
    (h : Inside (ruleBody site.rule) parts) : Gives (restBinding site parts) (Fills site parts) := by
  rcases is with is | is
  · rw [is] at h
    refine .bind (h.target rfl) fun target _ => ?_
    exact plain_fills is (.of_role rfl rfl)
  · rw [is] at h
    refine .bind (h.target rfl) fun target _ => ?_
    exact plain_fills is (.of_rest target site.span)

theorem param_fills (is : site.rule = .param) (h : Inside (ruleBody .param) parts) :
    Gives (param site parts) (Fills site parts) := by
  have bound : ∀ binding, Gives (do Made.plain (.pattern (withDefault site binding (← initial parts))))
      (Fills site parts) := by
    intro binding
    refine .bind h.initial fun default _ => ?_
    exact plain_fills is (.of_role rfl rfl)
  unfold param
  rcases h.alt with rest | plain
  · obtain ⟨p, rfl, sound, isRest⟩ := rest.call
    simp only [List.find?_singleton, isRest, decide_true, if_true]
    exact .bind (sound.toPattern isRest rfl) fun binding _ => bound binding
  · have noRest : parts.find? (·.rule = .restParam) = none := plain.find?_eq_none (by decide)
    simp only [noRest]
    exact .bind (plain.target rfl) fun binding _ => bound binding

theorem propertyKey_fills (is : site.rule = .propertyKey) (h : Inside (ruleBody .propertyKey) parts) :
    Gives (propertyKey site parts) (Fills site parts) := by
  refine .bind (h.first rfl) fun part ⟨sound, called⟩ => ?_
  have cases_ : part.rule = .identifierName ∨ part.rule = .string ∨ part.rule = .number ∨ part.rule = .computedKey := by
    simpa [ruleBody, Peg.oneOf, Peg.calls] using called
  rcases cases_ with isKey | isKey | isKey | isKey
  case inr.inr.inr =>
    simp only [isKey]
    refine .bind (sound.toExpr isKey rfl) fun expr _ => ?_
    exact plain_fills is (.of_role rfl rfl)
  all_goals
    simp only [isKey]
    exact plain_fills is (.of_role rfl rfl)

/-! ## Operators -/

/-- What may follow an operand of a level: an operator with the next operand, or a type. -/
inductive Round (tier : Grammar.Level) : List Part → Prop
  | operator {op : BinaryOp} {symbol operand : Part} (is : symbol.rule = .operator op) (listed : op ∈ tier.operators)
    (sound : operand.Sound) (next : operand.rule = tier.operand) : Round tier [symbol, operand]
  | type {part : Part} (is : part.rule = .tsAsSuffix) : Round tier [part]

theorem readsExpr_operand (tier : Grammar.Level) : readsExpr tier.operand = true := by
  cases tier <;> rfl

/-- Rounds are folded from the left, and the edits are those of the types among them and those in the operands. -/
theorem foldOperands_gives {tier : Grammar.Level} (left : Expr) (before : List Part) {operand : Part}
    {edits : List Edit} {rounds : List (List Part)} (here : parts = before ++ operand :: rounds.flatten)
    (own : ∀ e ∈ edits, OwnEdit site parts e) (each : ∀ round ∈ rounds, Round tier round) :
    Gives (foldOperands left operand.contentStop edits rounds.flatten)
      fun made => made.1.role = .expr ∧ ∀ e ∈ made.2, OwnEdit site parts e := by
  induction rounds generalizing left before operand edits with
  | nil => exact .ok ⟨rfl, own⟩
  | cons round rounds ih =>
    obtain ⟨first, others⟩ := List.forall_mem_cons.1 each
    cases first with
    | @operator op symbol next is listed sound isOperand =>
      simp only [List.flatten_cons, List.cons_append, List.nil_append, foldOperands, is]
      refine .bind (sound.toExpr isOperand (readsExpr_operand tier)) fun right _ => ?_
      have inOperand : ∀ e ∈ next.edits, OwnEdit site parts e := fun e edit => .operand (by simp [here]) edit
      exact ih _ (before ++ [operand, symbol]) (by simp [here]) (List.forall_mem_append.2 ⟨own, inOperand⟩) others
    | @type part is =>
      have own' : ∀ e ∈ edits ++ [Edit.remove operand.contentStop part.contentStop], OwnEdit site parts e := by
        intro e mem
        rcases List.mem_append.1 mem with mem | mem
        · exact own e mem
        · rw [List.mem_singleton.1 mem]
          have around : parts = before ++ operand :: part :: rounds.flatten := by simp [here]
          exact .suffix around is
      have further : parts = (before ++ [operand]) ++ part :: rounds.flatten := by simp [here]
      have rest := ih left _ further own' others
      simp only [List.flatten_cons, List.cons_append, List.nil_append]
      cases more : rounds.flatten with
      | nil =>
        simp only [foldOperands, is, if_true]
        exact .ok ⟨rfl, own'⟩
      | cons q qs =>
        simp only [foldOperands, is]
        exact more ▸ rest

/-- The rounds of a level are rounds. -/
theorem round_of_inside {tier : Grammar.Level} {parts : List Part} (h : Inside tier.round parts) : Round tier parts := by
  obtain ⟨ps, qs, rfl, operator, operand⟩ := h.seq
  obtain ⟨next, rfl, sound, isOperand⟩ := operand.call
  obtain ⟨symbol, rfl, -, called⟩ := operator.single (by cases tier <;> rfl)
  rw [Peg.calls_oneOf, List.flatMap_map] at called
  obtain ⟨op, listed, isOperator⟩ := List.mem_flatMap.1 called
  exact .operator (List.mem_singleton.1 isOperator) listed sound isOperand

/-- The parts of a level: an operand, and rounds after it. -/
theorem exists_rounds {tier : Grammar.Level} (h : Inside (ruleBody (.level tier)) parts) :
    ∃ (operand : Part) (rounds : List (List Part)), parts = operand :: rounds.flatten ∧ operand.Sound ∧
      operand.rule = tier.operand ∧ ∀ round ∈ rounds, Round tier round := by
  have shape : ∃ further : Grammar.Body, Inside (.seq (.call tier.operand) (.star further)) parts ∧
      ∀ ps, Inside further ps → Round tier ps := by
    cases tier with
    | relational =>
      refine ⟨_, h, fun ps inside => ?_⟩
      rcases inside.alt with round | type
      · exact round_of_inside round
      · obtain ⟨p, rfl, -, isType⟩ := type.call
        exact .type isType
    | _ => exact ⟨_, h, fun ps => round_of_inside⟩
  obtain ⟨further, inside, rounds⟩ := shape
  obtain ⟨ps, qs, rfl, first, rest⟩ := inside.seq
  obtain ⟨operand, rfl, sound, isOperand⟩ := first.call
  obtain ⟨all, rfl, each⟩ := rest.star
  exact ⟨operand, all, rfl, sound, isOperand, fun round mem => rounds round (each round mem)⟩

theorem operands_fills {tier : Grammar.Level} (is : site.rule = .level tier)
    (h : Inside (ruleBody (.level tier)) parts) : Gives (operands site parts) (Fills site parts) := by
  obtain ⟨operand, rounds, here, sound, isOperand, each⟩ := exists_rounds h
  subst here
  refine .bind (sound.toExpr isOperand (readsExpr_operand tier)) fun left _ => ?_
  have inOperand : ∀ e ∈ operand.edits, OwnEdit site (operand :: rounds.flatten) e := fun e edit =>
    .operand (List.mem_cons_self ..) edit
  obtain ⟨made, folded, role, own⟩ := foldOperands_gives left [] rfl inOperand each
  refine ⟨made, folded, ⟨is ▸ .of_role ?_ rfl, own⟩⟩
  rw [role]
  rfl

theorem unary_fills (is : site.rule = .unaryExpr) (h : Inside (ruleBody .unaryExpr) parts) :
    Gives (unary site parts) (Fills site parts) := by
  rcases h.alt with prefixed | rest
  · obtain ⟨ps, qs, rfl, symbol, operand⟩ := prefixed.seq
    obtain ⟨op, rfl, named, isOp⟩ := symbol.call
    obtain ⟨arg, rfl, sound, isArg⟩ := operand.call
    obtain ⟨meaning, spelled⟩ := named.spelled.unaryOp isOp
    refine .bind (sound.toExpr isArg rfl) fun arg _ => ?_
    simp only [isOp, spelled]
    exact plain_fills is (.of_role rfl rfl)
  rcases rest.alt with updated | rest
  · obtain ⟨ps, qs, rfl, symbol, operand⟩ := updated.seq
    obtain ⟨op, rfl, -, isOp⟩ := symbol.call
    obtain ⟨arg, rfl, sound, isArg⟩ := operand.call
    refine .bind (sound.toExpr isArg rfl) fun arg _ => ?_
    simp only [isOp]
    exact plain_fills is (.of_role rfl rfl)
  · obtain ⟨part, rfl, sound, called⟩ := rest.single rfl
    have reads : readsExpr part.rule = true := by
      rcases List.mem_pair.1 called with is | is <;> rw [is] <;> rfl
    refine .bind (sound.toExpr rfl reads) fun expr _ => ?_
    exact plain_fills is (.of_role rfl rfl)

/-! ## Postfixes -/

/-- The rules of postfixes. -/
def isPostfix : Rule → Bool
  | .callArgs | .optionalCall | .memberAccess | .optionalMember | .indexAccess | .optionalIndex | .nonNull
  | .taggedTemplate => true
  | _ => false

theorem applyPostfix_succeeds {part : Part} (sound : part.Sound) (postfix_ : isPostfix part.rule = true) (expr : Expr) :
    Succeeds (applyPostfix expr part) := by
  unfold isPostfix at postfix_
  split at postfix_
  case h_9 => cases postfix_
  all_goals
    rename_i is
    simp only [applyPostfix, is]
  case h_1 | h_2 => exact .bind (sound.toArgs is rfl) fun _ _ => .ok trivial
  case h_3 | h_4 => exact .bind (sound.toProperty is rfl) fun _ _ => .ok trivial
  case h_5 | h_6 | h_8 => exact .bind (sound.toExpr is rfl) fun _ _ => .ok trivial
  case h_7 => exact .ok trivial

/-- An expression in front and postfixes after it. -/
theorem postfixes_fills {rule : Rule} {head tail : Grammar.Body} (is : site.rule = rule)
    (makes : ∀ expr, Makes rule (.expr expr)) (h : Inside (.seq head (.star tail)) parts) (single : head.single = true)
    (heads : ∀ r ∈ head.calls, readsExpr r = true) (tails : ∀ r ∈ tail.calls, isPostfix r = true) :
    Gives (postfixes site parts) (Fills site parts) := by
  obtain ⟨ps, qs, rfl, first, rest⟩ := h.seq
  obtain ⟨part, rfl, sound, called⟩ := first.single single
  refine .bind (sound.toExpr rfl (heads _ called)) fun expr _ => ?_
  refine .bind (Succeeds.foldlM fun q mem expr => ?_) fun whole _ => ?_
  · exact applyPostfix_succeeds (rest.sound q mem) (tails _ (rest.called mem)) expr
  · exact plain_fills is (makes whole)

/-! ## Templates -/

theorem templateParts_succeeds {chunk : List Char}
    (sound : ∀ p ∈ parts, p.Sound ∧ (p.rule = .templateChunk ∨ p.rule = .templateSubst)) :
    Succeeds (templateParts chunk parts) := by
  induction parts generalizing chunk with
  | nil => exact .ok trivial
  | cons p ps ih =>
    obtain ⟨⟨first, is⟩, rest⟩ := List.forall_mem_cons.1 sound
    unfold templateParts
    rcases is with is | is
    · simp only [is]
      exact ih rest
    · simp only [is]
      refine .bind (first.toExpr is rfl) fun expr _ => ?_
      refine .bind (ih rest) fun following _ => ?_
      exact .ok trivial

/-! ## Functions, calls and literals -/

theorem arrow_fills (is : site.rule = .arrowFn) (h : Inside (ruleBody .arrowFn) parts) :
    Gives (arrow site parts) (Fills site parts) := by
  refine h.read rfl (fun _ sound is => sound.toParams is rfl) fun params => ?_
  refine .bind (h.the rfl) fun body ⟨sound, isBody⟩ => ?_
  obtain ⟨body, piece⟩ := Piece.eq_arrowBody (sound.role isBody rfl)
  simp only [piece]
  exact plain_fills is (.of_role rfl rfl)

theorem arrowParams_fills (is : site.rule = .arrowParams) (h : Inside (ruleBody .arrowParams) parts) :
    Gives (arrowParams parts) (Fills site parts) := by
  unfold arrowParams
  cases parts with
  | nil => exact plain_fills is (.of_role rfl rfl)
  | cons part rest =>
    have sound := h.sound part (List.mem_cons_self ..)
    have called := h.called (List.mem_cons_self ..)
    rcases List.mem_pair.1 called with isName | isParams
    · simp only [isName]
      refine .bind (sound.toPattern isName rfl) fun name _ => ?_
      exact plain_fills is (.of_role rfl rfl)
    · simp only [isParams]
      refine .bind (sound.toParams isParams rfl) fun params _ => ?_
      exact plain_fills is (.of_role rfl rfl)

theorem arrowBody_fills (is : site.rule = .arrowBody) (h : Inside (ruleBody .arrowBody) parts) :
    Gives (arrowBody site parts) (Fills site parts) := by
  refine .bind (h.first rfl) fun part ⟨sound, called⟩ => ?_
  rcases List.mem_pair.1 called with isBlock | isExpr
  · obtain ⟨body, piece⟩ := Piece.eq_body (sound.role isBlock rfl)
    simp only [piece]
    exact plain_fills is (.of_role rfl rfl)
  · obtain ⟨expr, piece⟩ := Piece.eq_expr (sound.role isExpr rfl)
    simp only [piece]
    refine .bind (sound.toExpr isExpr rfl) fun expr _ => ?_
    exact plain_fills is (.of_role rfl rfl)

theorem newExpr_fills (is : site.rule = .newExpr) (h : Inside (ruleBody .newExpr) parts) :
    Gives (newExpr site parts) (Fills site parts) := by
  refine h.read rfl (fun _ sound is => sound.toExpr is rfl) fun callee => ?_
  refine .bind (h.optional fun p sound is => sound.toArgs is rfl) fun args _ => ?_
  exact plain_fills is (.of_role rfl rfl)

theorem args_fills {rule : Rule} (is : site.rule = rule) (makes : ∀ args, Makes rule (.args args))
    (h : Inside e parts) : Gives (args parts) (Fills site parts) := by
  refine .bind (h.optional fun p sound is => sound.toArgs is rfl) fun args _ => ?_
  exact plain_fills is (makes _)

theorem objectMethod_fills (is : site.rule = .objectMethod) (h : Inside (ruleBody .objectMethod) parts) :
    Gives (objectMethod site parts) (Fills site parts) := by
  refine h.read rfl (fun _ sound is => sound.toKey is rfl) fun key => ?_
  refine .bind (h.function rfl none) fun func _ => ?_
  exact plain_fills is (.of_role rfl rfl)

/-! ## Expressions of one rule -/

section

attribute [local simp] expression

theorem expression_fills (is : site.rule = .expression) (h : Inside (ruleBody .expression) parts) :
    Gives (expression site parts) (Fills site parts) := by
  have reads : ∀ p ∈ parts, Succeeds p.toExpr := by
    intro p mem
    refine (h.sound p mem).toExpr rfl ?_
    rcases List.mem_pair.1 (h.called mem) with is | is <;> rw [is] <;> rfl
  obtain ⟨p, mem, -⟩ := h.exists_of_needs (P := fun _ => true) rfl
  simp only [expression, is]
  refine .bind (Succeeds.mapM_ne_nil reads (List.ne_nil_of_mem mem)) fun es nonempty => ?_
  match es with
  | [] => exact absurd rfl nonempty
  | [e] => exact plain_fills is (.of_role rfl rfl)
  | _ :: _ :: _ => exact plain_fills is (.of_role rfl rfl)

theorem assignExpr_fills (is : site.rule = .assignExpr) (h : Inside (ruleBody .assignExpr) parts) :
    Gives (expression site parts) (Fills site parts) := by
  rcases h.alt with arrow | other
  · obtain ⟨p, rfl, sound, isArrow⟩ := arrow.call
    simp only [expression, is]
    refine .bind (sound.toExpr isArrow rfl) fun expr _ => ?_
    exact plain_fills is (.of_role rfl rfl)
  · obtain ⟨ps, qs, rfl, left, right⟩ := other.seq
    obtain ⟨target, rfl, sound, isTarget⟩ := left.call
    rcases right.opt with rfl | right
    · simp only [expression, is]
      refine .bind (sound.toExpr isTarget rfl) fun expr _ => ?_
      exact plain_fills is (.of_role rfl rfl)
    · obtain ⟨os, vs, rfl, op, value⟩ := right.seq
      obtain ⟨op, rfl, -, -⟩ := op.call
      obtain ⟨value, rfl, valueSound, isValue⟩ := value.call
      simp only [expression, is]
      refine .bind (sound.toExpr isTarget rfl) fun target _ => ?_
      refine .bind (valueSound.toExpr isValue rfl) fun value _ => ?_
      exact plain_fills is (.of_role rfl rfl)

theorem conditionalExpr_fills (is : site.rule = .conditionalExpr) (h : Inside (ruleBody .conditionalExpr) parts) :
    Gives (expression site parts) (Fills site parts) := by
  obtain ⟨ps, qs, rfl, test, branches⟩ := h.seq
  obtain ⟨test, rfl, sound, isTest⟩ := test.call
  rcases branches.opt with rfl | branches
  · simp only [expression, is]
    refine .bind (sound.toExpr isTest rfl) fun expr _ => ?_
    exact plain_fills is (.of_role rfl rfl)
  · obtain ⟨ms, rest, rfl, mark, branches⟩ := branches.seq
    obtain ⟨ts, rest, rfl, yes, branches⟩ := branches.seq
    obtain ⟨cs, es, rfl, colon, no⟩ := branches.seq
    obtain ⟨yes, rfl, yesSound, isYes⟩ := yes.call
    obtain ⟨no, rfl, noSound, isNo⟩ := no.call
    cases mark.text
    cases colon.text
    simp only [expression, is]
    refine .bind (sound.toExpr isTest rfl) fun test _ => ?_
    refine .bind (yesSound.toExpr isYes rfl) fun yes _ => ?_
    refine .bind (noSound.toExpr isNo rfl) fun no _ => ?_
    exact plain_fills is (.of_role rfl rfl)

theorem exponentExpr_fills (is : site.rule = .exponentExpr) (h : Inside (ruleBody .exponentExpr) parts) :
    Gives (expression site parts) (Fills site parts) := by
  obtain ⟨ps, qs, rfl, base, power⟩ := h.seq
  obtain ⟨base, rfl, sound, isBase⟩ := base.call
  rcases power.opt with rfl | power
  · simp only [expression, is]
    refine .bind (sound.toExpr isBase rfl) fun expr _ => ?_
    exact plain_fills is (.of_role rfl rfl)
  · obtain ⟨os, rest, rfl, op, exponent⟩ := power.seq
    obtain ⟨op, rfl, -, -⟩ := op.call
    obtain ⟨power, rfl, powerSound, isPower⟩ := exponent.call
    simp only [expression, is]
    refine .bind (sound.toExpr isBase rfl) fun base _ => ?_
    refine .bind (powerSound.toExpr isPower rfl) fun power _ => ?_
    exact plain_fills is (.of_role rfl rfl)

theorem awaitExpr_fills (is : site.rule = .awaitExpr) (h : Inside (ruleBody .awaitExpr) parts) :
    Gives (expression site parts) (Fills site parts) := by
  simp only [expression, is]
  refine h.read rfl (fun _ sound is => sound.toExpr is rfl) fun arg => ?_
  exact plain_fills is (.of_role rfl rfl)

theorem postfixExpr_fills (is : site.rule = .postfixExpr) (h : Inside (ruleBody .postfixExpr) parts) :
    Gives (expression site parts) (Fills site parts) := by
  obtain ⟨ps, qs, rfl, operand, mark⟩ := h.seq
  obtain ⟨operand, rfl, sound, isOperand⟩ := operand.call
  rcases mark.opt with rfl | mark
  · simp only [expression, is]
    refine .bind (sound.toExpr isOperand rfl) fun expr _ => ?_
    exact plain_fills is (.of_role rfl rfl)
  · obtain ⟨op, rfl, -, -⟩ := mark.call
    simp only [expression, is]
    refine .bind (sound.toExpr isOperand rfl) fun expr _ => ?_
    exact plain_fills is (.of_role rfl rfl)

theorem parenExpr_fills (is : site.rule = .parenExpr) (h : Inside (ruleBody .parenExpr) parts) :
    Gives (expression site parts) (Fills site parts) := by
  simp only [expression, is]
  refine .bind (h.first rfl) fun part ⟨sound, called⟩ => ?_
  have isExpr := List.mem_singleton.1 called
  refine .bind (sound.toExpr isExpr rfl) fun expr _ => ?_
  exact plain_fills is (.of_role rfl rfl)

theorem spreadElem_fills (is : site.rule = .spreadElem) (h : Inside (ruleBody .spreadElem) parts) :
    Gives (expression site parts) (Fills site parts) := by
  simp only [expression, is]
  refine .bind (h.first rfl) fun part ⟨sound, called⟩ => ?_
  have isExpr := List.mem_singleton.1 called
  refine .bind (sound.toExpr isExpr rfl) fun expr _ => ?_
  exact plain_fills is (.of_spread expr site.span)

theorem functionExpr_fills (is : site.rule = .functionExpr) (h : Inside (ruleBody .functionExpr) parts) :
    Gives (expression site parts) (Fills site parts) := by
  simp only [expression, is]
  refine .bind (h.function rfl _) fun func _ => ?_
  exact plain_fills is (.of_role rfl rfl)

theorem template_fills (is : site.rule = .template) (h : Inside (ruleBody .template) parts) :
    Gives (expression site parts) (Fills site parts) := by
  simp only [expression, is]
  refine .bind (templateParts_succeeds fun p mem => ⟨h.sound p mem, ?_⟩) fun whole _ => ?_
  · exact List.mem_pair.1 (h.called mem)
  · exact plain_fills is (.of_template (.inl rfl) whole.1 whole.2 site.span)

/-- A tag is followed by a template. -/
theorem taggedTemplate_fills (is : site.rule = .taggedTemplate) (h : Inside (ruleBody .taggedTemplate) parts) :
    Gives (do Made.plain (.expr (← (← first site parts).toExpr))) (Fills site parts) := by
  refine .bind (h.first rfl) fun part known => ?_
  obtain ⟨sound, called⟩ := known
  have rule : part.rule = .template := List.mem_singleton.1 called
  obtain ⟨quasis, exprs, span, piece⟩ := sound.makes.template (.inl rule)
  simp only [Part.toExpr, rule, piece]
  exact plain_fills is (.of_template (.inr rfl) quasis exprs span)

theorem arrayLit_fills (is : site.rule = .arrayLit) (h : Inside (ruleBody .arrayLit) parts) :
    Gives (expression site parts) (Fills site parts) := by
  simp only [expression, is]
  refine .bind (slots_succeeds fun p mem element => ?_) fun elements _ => ?_
  · have all : ∀ r ∈ (ruleBody .arrayLit).calls, r ≠ .arrayHole → readsExpr r = true := by decide
    exact (h.sound p mem).toExpr rfl (all _ (h.called mem) element)
  · exact plain_fills is (.of_role rfl rfl)

theorem objectLit_fills (is : site.rule = .objectLit) (h : Inside (ruleBody .objectLit) parts) :
    Gives (expression site parts) (Fills site parts) := by
  simp only [expression, is]
  refine .bind (h.mapM fun p sound called => sound.objectProp rfl ?_) fun props _ => ?_
  · have all : ∀ r ∈ (ruleBody .objectLit).calls, roleOf? r = some .objectProp ∨ r = .spreadElem := by decide
    exact all _ called
  · exact plain_fills is (.of_role rfl rfl)

end

end FlowScript.Parse
