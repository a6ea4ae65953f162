import FlowScript.Proofs.Parse.Expressions
import FlowScript.Proofs.Parse.ModuleNodes

/-!
# The nodes of expressions

What assembly makes of a match of a rule of expressions is grounded when its parts are. Operands and postfixes are folded
from the left: what has been read so far stands before the rest, so the next operator or postfix makes of it a node that
begins where it begins and ends further right.
-/

namespace FlowScript.Parse
open FlowScript.Grammar (RawText Rule ruleBody mayBeEmpty)
open FlowScript.Peg (Cursor)

variable {source : List Char} {site : Site} {parts : List Part}

/-! ## Growing to the right -/

section
variable {lo mid hi lo' hi' : Nat} {s : Slot} {left : Expr} {stop : Position}

/-- What has been read so far is a child of a node that ends further right. -/
theorem leads (h : Child.Between source lo mid 0 ⟨s, .expr left⟩) (later : mid < hi) :
    Child.Between source left.span.start.offset hi 1 ⟨s, .expr left⟩ := by
  obtain ⟨admits, sound, start, stop, room⟩ := h
  have nonempty := sound.here.placed.nonempty
  simp only [Node.length, Node.span] at start stop room nonempty
  refine ⟨admits, sound, Nat.le_refl _, ?_, ?_⟩
  all_goals simp only [Node.length, Node.span]; omega

/-- What stands further right is a child of a node that begins with what has been read so far. -/
theorem follows (h : Child.Between source lo mid 0 ⟨s, .expr left⟩) {c : Child} (next : c.Between source lo' hi' 0)
    (later : mid ≤ lo') (within : hi' ≤ hi) : Child.Between source left.span.start.offset hi 1 c := by
  have nonempty := h.nonempty
  have stops := h.stop
  have := next.nonempty
  have := next.start
  have := next.stop
  simp only [Node.span] at nonempty stops
  exact next.widen (by omega) within (by omega)

/-- A node that begins with what has been read so far and ends further right. -/
theorem grown {n : Node} {t : Slot} (h : Child.Between source lo mid 0 ⟨s, .expr left⟩)
    (span : n.span = ⟨left.span.start, stop⟩) (stops : stop.Within source) (later : mid < stop.offset)
    (formed : n.Formed source) (admits : t.Admits n) (records : n.text? = none)
    (inOrder : ∀ body ∈ n.bodies, InOrder body)
    (children : ∀ c ∈ n.children, c.Between source left.span.start.offset stop.offset n.margin) :
    Child.Between source lo stop.offset 0 ⟨t, n⟩ := by
  have placed := h.sound.here.placed
  have nonempty := h.nonempty
  have starts := h.start
  have ends := h.stop
  simp only [Node.span] at nonempty starts ends
  refine ⟨admits, Node.everywhere_sound ?_ ?_ ?_ records formed inOrder ?_, ?_, ?_, ?_⟩
  all_goals simp only [Node.length, span]
  · exact placed.start
  · exact stops
  · omega
  · exact children
  · exact starts
  · exact Nat.le_refl _
  · omega

end

/-! ## Operators -/

theorem precedence_of_mem_operators {tier : Grammar.Level} {op : BinaryOp} (listed : op ∈ tier.operators) :
    op.precedence = tier.precedence ∧ op ≠ .exp := by
  cases tier <;> cases op <;> first | exact ⟨rfl, nofun⟩ | (revert listed; decide)

theorem operand_implies (tier : Grammar.Level) :
    (slotOf tier.operand).implies (.least tier.precedence) = true ∧
      (slotOf tier.operand).implies (.above tier.precedence) = true := by
  cases tier <;> exact ⟨rfl, rfl⟩

/-- A left operand and the operand after an operator of the level. -/
theorem binary_between {tier : Grammar.Level} {op : BinaryOp} {left right : Expr} {lo mid lo' hi' : Nat}
    (listed : op ∈ tier.operators) (hl : Child.Between source lo mid 0 ⟨.least tier.precedence, .expr left⟩)
    (hr : Child.Between source lo' hi' 0 ⟨slotOf tier.operand, .expr right⟩) (later : mid ≤ lo') :
    Child.Between source lo hi' 0
      ⟨.least tier.precedence, .expr (.binary op left right (left.span.merge right.span))⟩ := by
  obtain ⟨level, notPower⟩ := precedence_of_mem_operators listed
  have starts := hl.stop
  have nonempty := hl.nonempty
  have starts' := hr.start
  have stops' := hr.stop
  have nonempty' := hr.nonempty
  simp only [Node.span] at starts nonempty starts' stops' nonempty'
  have merged : left.span.merge right.span = ⟨left.span.start, right.span.stop⟩ :=
    Span.merge_eq (by omega) (by omega) hl.sound.here.placed.stop hr.sound.here.placed.stop
  rw [merged]
  have whole : Child.Between source lo right.span.stop.offset 0
      ⟨.least tier.precedence, .expr (.binary op left right ⟨left.span.start, right.span.stop⟩)⟩ := by
    refine grown hl rfl hr.sound.here.placed.stop (by omega) trivial ?_ rfl (List.forall_mem_nil _) ?_
    · show tier.precedence ≤ op.precedence
      rw [level]
      exact Nat.le_refl _
    · refine List.forall_mem_cons.2 ⟨?_, List.forall_mem_singleton.2 ?_⟩
      · rw [BinaryOp.leftSlot, if_neg notPower, level]
        exact leads hl (by omega)
      · rw [BinaryOp.rightSlot, if_neg notPower, level]
        have right_ := (hr.weaken (operand_implies tier).2).own
        exact follows hl right_ (Nat.le_trans later starts') (Nat.le_refl _)
  exact whole.wider (Nat.le_refl _) stops'

/-- Rounds are folded from the left: what has been read so far ends where the last operand does. -/
theorem foldOperands_shows {tier : Grammar.Level} (h : Scene source (.level tier) site parts) (left : Expr)
    (before : List Part) {operand : Part} {rounds : List (List Part)} (stop : Nat) (edits : List Edit)
    (here : parts = before ++ operand :: rounds.flatten) (each : ∀ round ∈ rounds, Round tier round)
    (hl : Child.Between source site.start.offset operand.stop.offset 0 ⟨.least tier.precedence, .expr left⟩) :
    Yields (foldOperands left stop edits rounds.flatten) (Shows source site) := by
  induction rounds generalizing left before operand stop edits with
  | nil =>
    have whole := hl.wider (Nat.le_refl _) (h.contains operand (by simp [here])).2
    exact .ok ⟨.single (h.is ▸ whole), trivial⟩
  | cons round rounds ih =>
    obtain ⟨first, others⟩ := List.forall_mem_cons.1 each
    have apart := h.apart
    rw [here] at apart
    obtain ⟨-, apart, -⟩ := List.pairwise_append.1 apart
    obtain ⟨after, apart⟩ := List.pairwise_cons.1 apart
    cases first with
    | @operator op symbol next is listed sound isOperand =>
      simp only [List.flatten_cons, List.cons_append, List.nil_append, foldOperands, is]
      have memSymbol : symbol ∈ parts := by simp [here]
      have memNext : next ∈ parts := by simp [here]
      have early := after symbol (by simp)
      have ordered := (h.stands symbol memSymbol).ordered
      have late := (List.pairwise_cons.1 apart).1 next (by simp)
      refine .bind (h.grounded next memNext).toExpr fun right hr => ?_
      rw [isOperand] at hr
      have further : parts = (before ++ [operand, symbol]) ++ next :: rounds.flatten := by simp [here]
      refine ih _ (before ++ [operand, symbol]) _ _ further others ?_
      exact binary_between listed hl hr (by omega)
    | @type part is =>
      have early := after part (by simp)
      have ordered := (h.stands part (by simp [here])).ordered
      have further : parts = (before ++ [operand]) ++ part :: rounds.flatten := by simp [here]
      have wider := hl.wider (Nat.le_refl _) (Nat.le_trans early ordered)
      have rest := fun stop edits => ih left (before ++ [operand]) stop edits further others wider
      simp only [List.flatten_cons, List.cons_append, List.nil_append]
      cases more : rounds.flatten with
      | nil =>
        rw [more] at rest
        simp only [foldOperands, is, if_true]
        exact rest 0 _
      | cons q qs =>
        simp only [foldOperands, is]
        exact more ▸ rest _ _

theorem operands_shows {tier : Grammar.Level} (h : Scene source (.level tier) site parts) :
    Yields (operands site parts) (Shows source site) := by
  obtain ⟨operand, rounds, here, -, isOperand, each⟩ := exists_rounds h.inside
  have mem : operand ∈ parts := by simp [here]
  have first : Yields operand.toExpr fun left =>
      Child.Between source site.start.offset operand.stop.offset 0 ⟨.least tier.precedence, .expr left⟩ := by
    refine (h.grounded operand mem).toExpr.imp fun left between => ?_
    rw [isOperand] at between
    exact (between.weaken (operand_implies tier).1).wider (h.contains operand mem).1 (Nat.le_refl _)
  rw [here]
  exact .bind first fun left hl => foldOperands_shows h left [] _ _ here each hl

theorem unary_shows (h : Scene source .unaryExpr site parts) : Yields (unary site parts) (Shows source site) := by
  have operand {op arg : Part} (isOp : op.rule = .unaryOp ∨ op.rule = .updateOp) (isArg : arg.rule = .unaryExpr)
      (here : parts = [op, arg]) : Yields arg.toExpr fun e => site.Holds source 1 [.expr .unary e] := by
    refine (h.grounded arg (by simp [here])).toExpr.imp fun e between => ?_
    rw [isArg] at between
    refine h.lift_beside (q := op) (by simp [here]) (by simp [here]) ?_ ?_ (.single between)
    · rcases isOp with is | is <;> rw [is, isArg] <;> nofun
    · rcases isOp with is | is <;> rw [is] <;> rfl
  rcases h.inside.alt with prefixed | rest
  · obtain ⟨ps, qs, rfl, symbol, argument⟩ := prefixed.seq
    obtain ⟨op, rfl, named, isOp⟩ := symbol.call
    obtain ⟨arg, rfl, -, isArg⟩ := argument.call
    obtain ⟨meaning, spelled⟩ := named.spelled.unaryOp isOp
    refine .bind (operand (.inl isOp) isArg rfl) fun e holds => ?_
    simp only [isOp, spelled]
    exact h.shows_expr rfl trivial (Precedence.le_refl _) rfl rfl (List.forall_mem_nil _) holds
  rcases rest.alt with updated | rest
  · obtain ⟨ps, qs, rfl, symbol, argument⟩ := updated.seq
    obtain ⟨op, rfl, -, isOp⟩ := symbol.call
    obtain ⟨arg, rfl, -, isArg⟩ := argument.call
    refine .bind (operand (.inr isOp) isArg rfl) fun e holds => ?_
    simp only [isOp]
    exact h.shows_expr rfl trivial (Precedence.le_refl _) rfl rfl (List.forall_mem_nil _) holds
  · obtain ⟨part, rfl, -, called⟩ := rest.single rfl
    refine h.passes_expr (List.mem_singleton_self part) ?_
    rcases List.mem_pair.1 called with is | is <;> rw [is] <;> rfl

/-! ## Expressions of one rule -/

/-- An operand leaves room for an operator that stands beside it. -/
theorem operand_yields {rule : Rule} (h : Scene source rule site parts) (level : Precedence) {p q : Part}
    (memp : p ∈ parts) (memq : q ∈ parts) {r t : Rule} (isp : p.rule = r) (isq : q.rule = t) (ne : r ≠ t)
    (solid : mayBeEmpty t = false) (implied : (slotOf r).implies (.least level) = true) :
    Yields p.toExpr fun e => site.Holds source 1 [.expr level e] := by
  subst isp isq
  refine (h.grounded p memp).toExpr.imp fun e between => ?_
  exact h.lift_beside memp memq ne solid (.single (between.weaken implied))

/-- Children that are read off one part each, of two at least, leave room for each other. -/
theorem siblings {rule : Rule} (h : Scene source rule site parts) {α : Type} {f : α → Child} {as : List α}
    (read : List.Forall₂ (fun p a => p.Holds source 0 [f a]) parts as) (two : 2 ≤ parts.length)
    (solid : ∀ p ∈ parts, mayBeEmpty p.rule = false) : site.Holds source 1 (as.map f) := by
  intro c inside
  obtain ⟨a, mem, rfl⟩ := List.mem_map.1 inside
  obtain ⟨p, memp, holds⟩ := exists_of_forall₂ read mem
  have other : ∃ q ∈ parts, p.stop.offset ≤ q.start.offset ∨ q.stop.offset ≤ p.start.offset := by
    have apart := h.apart
    match parts, two with
    | first :: second :: rest, _ =>
      have after := (List.pairwise_cons.1 apart).1
      rcases List.mem_cons.1 memp with rfl | later
      · exact ⟨second, by simp, .inl (after second (by simp))⟩
      · exact ⟨first, by simp, .inr (after p later)⟩
  obtain ⟨q, memq, apart⟩ := other
  exact h.lift_apart memp memq apart (solid q memq) holds _ (List.mem_singleton_self _)

theorem expression_shows (h : Scene source .expression site parts) :
    Yields (expression site parts) (Shows source site) := by
  have isExpr : ∀ p ∈ parts, p.rule = .assignExpr := fun p mem => by
    rcases List.mem_pair.1 (h.inside.called mem) with is | is <;> exact is
  have reads : ∀ p ∈ parts, Yields p.toExpr fun e => p.Holds source 0 [.expr .assign e] := by
    intro p mem
    refine (h.grounded p mem).toExpr.imp fun e between => ?_
    rw [isExpr p mem] at between
    exact .single between
  simp only [expression, h.is]
  refine .bind (.mapM reads) fun es read => ?_
  have sameLength := read.length_eq
  obtain _ | ⟨e, _ | ⟨e', es⟩⟩ := es
  · exact .error
  · obtain ⟨p, mem, holds⟩ := exists_of_forall₂ read (List.mem_singleton_self e)
    have between := h.lift_all mem holds _ (List.mem_singleton_self _)
    refine shows_piece (.single ?_) trivial
    rw [h.is]
    exact between.weaken rfl
  · have two : 2 ≤ parts.length := by simp [sameLength]
    have several : 2 ≤ (e :: e' :: es).length := by simp
    refine h.shows_expr rfl several (Precedence.le_refl _) rfl rfl (List.forall_mem_nil _) ?_
    exact siblings h read two fun p mem => isExpr p mem ▸ rfl

theorem assignExpr_shows (h : Scene source .assignExpr site parts) :
    Yields (expression site parts) (Shows source site) := by
  rcases h.inside.alt with arrow | other
  · obtain ⟨p, rfl, -, isArrow⟩ := arrow.call
    simp only [expression, h.is]
    exact h.passes_expr (List.mem_singleton_self p) (isArrow ▸ rfl)
  · obtain ⟨ps, qs, rfl, left, right⟩ := other.seq
    obtain ⟨target, rfl, -, isTarget⟩ := left.call
    rcases right.opt with rfl | right
    · simp only [expression, h.is]
      exact h.passes_expr (List.mem_cons_self ..) (isTarget ▸ rfl)
    · obtain ⟨os, vs, rfl, op, value⟩ := right.seq
      obtain ⟨op, rfl, -, isOp⟩ := op.call
      obtain ⟨value, rfl, -, isValue⟩ := value.call
      simp only [expression, h.is]
      refine .bind (operand_yields h .conditional (by simp) (by simp) isTarget isOp (by decide) rfl rfl) fun t holdsTarget => ?_
      refine .bind (operand_yields h .assign (by simp) (by simp) isValue isOp (by decide) rfl rfl) fun v holdsValue => ?_
      exact h.shows_expr rfl trivial (Precedence.le_refl _) rfl rfl (List.forall_mem_nil _) (holdsTarget.append holdsValue)

theorem conditionalExpr_shows (h : Scene source .conditionalExpr site parts) :
    Yields (expression site parts) (Shows source site) := by
  obtain ⟨ps, qs, rfl, test, branches⟩ := h.inside.seq
  obtain ⟨test, rfl, -, isTest⟩ := test.call
  rcases branches.opt with rfl | branches
  · simp only [expression, h.is]
    exact h.passes_expr (List.mem_cons_self ..) (isTest ▸ rfl)
  · obtain ⟨ms, rest, rfl, mark, branches⟩ := branches.seq
    obtain ⟨ts, rest, rfl, yes, branches⟩ := branches.seq
    obtain ⟨cs, es, rfl, colon, no⟩ := branches.seq
    obtain ⟨yes, rfl, -, isYes⟩ := yes.call
    obtain ⟨no, rfl, -, isNo⟩ := no.call
    cases mark.text
    cases colon.text
    simp only [expression, h.is]
    refine .bind (operand_yields h .nullish (by simp) (by simp) isTest isYes (by decide) rfl rfl) fun t holdsTest => ?_
    refine .bind (operand_yields h .assign (by simp) (by simp) isYes isTest (by decide) rfl rfl) fun y holdsYes => ?_
    refine .bind (operand_yields h .assign (by simp) (by simp) isNo isTest (by decide) rfl rfl) fun n holdsNo => ?_
    exact h.shows_expr rfl trivial (Precedence.le_refl _) rfl rfl (List.forall_mem_nil _)
      (holdsTest.append (holdsYes.append holdsNo))

theorem exponentExpr_shows (h : Scene source .exponentExpr site parts) :
    Yields (expression site parts) (Shows source site) := by
  obtain ⟨ps, qs, rfl, base, power⟩ := h.inside.seq
  obtain ⟨base, rfl, -, isBase⟩ := base.call
  rcases power.opt with rfl | power
  · simp only [expression, h.is]
    exact h.passes_expr (List.mem_cons_self ..) (isBase ▸ rfl)
  · obtain ⟨os, rest, rfl, op, exponent⟩ := power.seq
    obtain ⟨op, rfl, -, isOp⟩ := op.call
    obtain ⟨power, rfl, -, isPower⟩ := exponent.call
    simp only [expression, h.is]
    refine .bind (operand_yields h .unary (by simp) (by simp) isBase isOp (by decide) rfl rfl) fun b holdsBase => ?_
    refine .bind (operand_yields h .exponent (by simp) (by simp) isPower isOp (by decide) rfl rfl) fun p holdsPower => ?_
    exact h.shows_expr rfl trivial (Precedence.le_refl _) rfl rfl (List.forall_mem_nil _) (holdsBase.append holdsPower)

theorem awaitExpr_shows (h : Scene source .awaitExpr site parts) :
    Yields (expression site parts) (Shows source site) := by
  simp only [expression, h.is]
  refine read_yields (fun p mem is => h.expr .unary mem is rfl) fun arg holds => ?_
  exact h.shows_expr rfl trivial (Precedence.le_refl _) rfl rfl (List.forall_mem_nil _) holds

theorem postfixExpr_shows (h : Scene source .postfixExpr site parts) :
    Yields (expression site parts) (Shows source site) := by
  obtain ⟨ps, qs, rfl, operand, mark⟩ := h.inside.seq
  obtain ⟨operand, rfl, -, isOperand⟩ := operand.call
  rcases mark.opt with rfl | mark
  · simp only [expression, h.is]
    exact h.passes_expr (List.mem_cons_self ..) (isOperand ▸ rfl)
  · obtain ⟨op, rfl, -, isOp⟩ := mark.call
    simp only [expression, h.is]
    refine .bind (operand_yields h .call (by simp) (by simp) isOperand isOp (by decide) rfl rfl) fun e holds => ?_
    exact h.shows_expr rfl trivial (Precedence.le_refl _) rfl rfl (List.forall_mem_nil _) holds

theorem parenExpr_shows (h : Scene source .parenExpr site parts) :
    Yields (expression site parts) (Shows source site) := by
  simp only [expression, h.is]
  refine .bind first_yields fun p mem => ?_
  have is := List.mem_singleton.1 (h.inside.called mem)
  refine .bind (h.expr .sequence mem is rfl) fun e holds => ?_
  exact h.shows_expr rfl trivial (Precedence.le_refl _) rfl rfl (List.forall_mem_nil _) holds

theorem spreadElem_shows (h : Scene source .spreadElem site parts) :
    Yields (expression site parts) (Shows source site) := by
  simp only [expression, h.is]
  refine .bind first_yields fun p mem => ?_
  have is := List.mem_singleton.1 (h.inside.called mem)
  refine .bind (h.expr .assign mem is rfl) fun e holds => ?_
  exact h.shows_expr rfl trivial (.inl rfl) rfl rfl (List.forall_mem_nil _) holds

theorem functionExpr_shows (h : Scene source .functionExpr site parts) :
    Yields (expression site parts) (Shows source site) := by
  simp only [expression, h.is]
  refine .bind (h.function rfl rfl h.named) fun func holds => ?_
  exact h.shows_expr rfl trivial (Precedence.le_refl _) rfl rfl (List.forall_mem_nil _) holds

/-! ## Templates and literals -/

/-- The substitutions of a template are read off parts. -/
theorem templateParts_yields {P : Part → Expr → Prop} (chunk : List Char)
    (reads : ∀ p ∈ parts, p.rule = .templateSubst → Yields p.toExpr (P p)) :
    Yields (templateParts chunk parts) fun made => ∀ e ∈ made.2, ∃ p ∈ parts, P p e := by
  induction parts generalizing chunk with
  | nil => exact .ok (List.forall_mem_nil _)
  | cons p ps ih =>
    have rest := fun chunk => ih chunk fun q mem => reads q (List.mem_cons_of_mem _ mem)
    have later {es : List Expr} (each : ∀ e ∈ es, ∃ q ∈ ps, P q e) : ∀ e ∈ es, ∃ q ∈ p :: ps, P q e := by
      intro e mem
      obtain ⟨q, inside, holds⟩ := each e mem
      exact ⟨q, List.mem_cons_of_mem _ inside, holds⟩
    unfold templateParts
    split
    · exact (rest _).imp fun made => later
    · rename_i is
      refine .bind (reads p (List.mem_cons_self ..) is) fun e holds => ?_
      refine .bind (rest []) fun made each => ?_
      exact .ok (List.forall_mem_cons.2 ⟨⟨p, List.mem_cons_self .., holds⟩, later each⟩)
    · exact .error

/-- What is read off the parts of a template stands in their text in turn. -/
theorem templateParts_alternates {c d : Cursor} (lo : Nat) {chunk : List Char} (raw : RawText c.rest chunk)
    (stands : ∀ p ∈ parts, p.Stands source) (inset : ∀ p ∈ parts, p.Inset source)
    (starts : c.offset = lo + Text.byteLength chunk) (abut : Site.Abut c (parts.map (·.toSite)) d)
    (closes : d.rest.head? = some '\x60') :
    Yields (templateParts chunk parts) fun made =>
      Alternates source lo made.1 made.2 (chunk ++ parts.flatMap (·.text)) := by
  induction parts generalizing c lo chunk with
  | nil =>
    obtain rfl : c = d := abut
    have last : Alternates source lo [String.ofList chunk] [] (String.ofList chunk).toList :=
      .last lo (by rw [String.toList_ofList]; exact raw.of_head? closes.symm)
    exact .ok (by simpa using last)
  | cons p ps ih =>
    obtain ⟨here, others⟩ := List.forall_mem_cons.1 stands
    obtain ⟨braces, insets⟩ := List.forall_mem_cons.1 inset
    obtain ⟨rfl, abut⟩ : p.start = c ∧ _ := abut
    unfold templateParts
    split
    · rename_i is
      have raw : RawText p.stop.rest (chunk ++ p.text) := (here.read.rest ▸ raw).append (here.raw is)
      refine (ih lo raw others insets ?_ abut).imp fun made alternate => ?_
      · rw [Text.byteLength_append, ← Nat.add_assoc, ← starts, here.size]
      · rwa [List.flatMap_cons, ← List.append_assoc]
    · rename_i is
      obtain ⟨t, inner, substitution, within⟩ := braces is
      refine .bind within fun e ⟨begins, ends⟩ => ?_
      refine .bind (ih p.stop.offset .nil others insets rfl abut) fun made alternate => .ok ?_
      have text : p.text = ['$', '\x7b'] ++ inner ++ ['\x7d'] := here.read.unique substitution.text
      have raw : RawText ['$', '\x7b'] (String.ofList chunk).toList := by
        rw [String.toList_ofList]
        exact raw.of_head? (by rw [substitution.text.rest]; rfl)
      have alternates := Alternates.hole raw (by rw [String.toList_ofList]; exact starts) substitution begins ends alternate
      simpa [text] using alternates
    · exact .error

/-- The text of a template is that of its parts between its quotes. -/
theorem text_of_quoted {opened closed : Cursor} (here : site.Stands source) (stands : ∀ p ∈ parts, p.Stands source)
    (opens : site.start.Reaches ['\x60'] opened) (abut : Site.Abut opened (parts.map (·.toSite)) closed)
    (closes : closed.Reaches ['\x60'] site.stop) : site.text = '\x60' :: parts.flatMap (·.text) ++ ['\x60'] := by
  suffices read : opened.Reaches (parts.flatMap (·.text)) closed from
    here.read.unique ((opens.append read).append closes)
  clear opens closes
  induction parts generalizing opened with
  | nil =>
    obtain rfl : opened = closed := abut
    exact .refl _
  | cons p ps ih =>
    obtain ⟨here, others⟩ := List.forall_mem_cons.1 stands
    obtain ⟨rfl, abut⟩ : p.start = opened ∧ _ := abut
    exact here.read.append (ih others abut)

theorem template_shows (h : Scene source .template site parts) : Yields (expression site parts) (Shows source site) := by
  have reads : ∀ p ∈ parts, p.rule = .templateSubst → Yields p.toExpr fun e => p.Holds source 0 [.expr .sequence e] := by
    intro p mem is
    refine (h.grounded p mem).toExpr.imp fun e between => ?_
    rw [is] at between
    exact .single between
  obtain ⟨opened, closed, opens, abut, closes⟩ := h.quoted rfl
  have inTurn := templateParts_alternates (site.start.offset + 1) .nil h.stands h.inset opens.offset abut
    (by rw [closes.rest]; rfl)
  simp only [expression, h.is]
  refine .bind ((templateParts_yields [] reads).and inTurn) fun made ⟨each, alternates⟩ => ?_
  have reading := h.here.reads
  rw [text_of_quoted h.here h.stands opens abut closes] at reading
  exact h.shows_expr rfl ⟨alternates.length, _, alternates, reading⟩ (Precedence.le_refl _) rfl rfl
    (List.forall_mem_nil _) (h.lift_each each)

/-- What stands in a list between commas. -/
theorem item_yields {rule : Rule} (h : Scene source rule site parts) {p : Part} (mem : p ∈ parts)
    (listed : p.rule = .spreadElem ∨ p.rule = .assignExpr) : Yields p.toExpr fun e => p.Holds source 0 [.item e] := by
  refine (h.grounded p mem).toExpr.imp fun e between => .single (between.weaken ?_)
  rcases listed with is | is <;> rw [is] <;> rfl

theorem arrayLit_shows (h : Scene source .arrayLit site parts) : Yields (expression site parts) (Shows source site) := by
  simp only [expression, h.is]
  refine .bind (slots_yields fun p mem element => item_yields h mem ?_) fun elements each => ?_
  · have all : ∀ r ∈ (ruleBody .arrayLit).calls, r ≠ .arrayHole → r = .spreadElem ∨ r = .assignExpr := by decide
    exact all _ (h.inside.called mem) element
  · exact h.shows_expr rfl trivial (Precedence.le_refl _) rfl rfl (List.forall_mem_nil _)
      (h.lift_each each)

theorem argList_shows (h : Scene source .argList site parts) :
    Yields (do Made.plain (.args (← parts.mapM Part.toExpr))) (Shows source site) := by
  refine .bind (.mapM fun p mem => item_yields h mem ?_) fun args read => ?_
  · have all : ∀ r ∈ (ruleBody .argList).calls, r = .spreadElem ∨ r = .assignExpr := by decide
    exact all _ (h.inside.called mem)
  · exact shows_piece (h.lift_each fun e mem => exists_of_forall₂ read mem) trivial

theorem objectLit_shows (h : Scene source .objectLit site parts) :
    Yields (expression site parts) (Shows source site) := by
  simp only [expression, h.is]
  refine .bind (.mapM fun p mem => (h.grounded p mem).objectProp) fun props read => ?_
  refine h.shows_expr rfl (fun name default mem => ?_) (Precedence.le_refl _) rfl rfl (List.forall_mem_nil _)
    (.flatMap fun prop mem => ?_)
  · obtain ⟨p, inside, -, named⟩ := exists_of_forall₂ read mem
    exact h.widenName inside (named name default rfl)
  · obtain ⟨p, inside, holds, -⟩ := exists_of_forall₂ read mem
    exact h.lift inside holds

theorem objectPair_shows (h : Scene source .objectPair site parts) :
    Yields (do
      let key ← (← the site parts .propertyKey).toKey
      Made.plain (.objectProp (.keyValue key (← (← the site parts .assignExpr).toExpr)))) (Shows source site) := by
  refine read_yields (fun p mem _ => (h.grounded p mem).toKey.imp fun _ => h.lift_all mem) fun key holdsKey => ?_
  refine read_yields (fun p mem is => h.expr .assign mem is rfl) fun value holds => ?_
  exact shows_piece (holdsKey.append holds) trivial

theorem objectMethod_shows (h : Scene source .objectMethod site parts) :
    Yields (objectMethod site parts) (Shows source site) := by
  refine read_yields (fun p mem _ => (h.grounded p mem).toKey.imp fun _ => h.lift_all mem) fun key holdsKey => ?_
  refine .bind (h.function rfl rfl nofun) fun func holds => ?_
  exact shows_piece (holdsKey.append holds) trivial

theorem objectShorthand_shows (h : Scene source .objectShorthand site parts) :
    Yields (do
      let name ← the site parts .identifier
      Made.plain (.objectProp (.shorthand name.word (← initial parts)))) (Shows source site) := by
  refine .bind the_yields fun name ⟨mem, is⟩ => ?_
  refine .bind h.value fun default holds => ?_
  exact shows_piece holds (h.nameWithin mem is)

/-! ## Functions and calls -/

theorem arrow_shows (h : Scene source .arrowFn site parts) : Yields (arrow site parts) (Shows source site) := by
  refine read_yields (P := fun params => site.Holds source 2 (params.map .pattern)) ?_ fun params holdsParams => ?_
  · exact fun p mem _ params read => h.lift mem ((h.grounded p mem).toParams params read)
  refine .bind the_yields fun body ⟨mem, _⟩ => ?_
  split
  · rename_i whole piece
    have holdsBody := h.lift mem (h.grounded body mem).nodes
    have formed := (h.grounded body mem).formed
    rw [Part.nodes, piece] at holdsBody
    cases whole with
    | block statements =>
      rw [Part.Formed, piece] at formed
      exact h.shows_expr rfl trivial (Precedence.le_refl _) rfl rfl (List.forall_mem_singleton.2 formed)
        (holdsParams.append holdsBody)
    | expr e =>
      exact h.shows_expr rfl trivial (Precedence.le_refl _) rfl rfl (List.forall_mem_nil _) (holdsParams.append holdsBody)
  · exact .error

theorem arrowParams_shows (h : Scene source .arrowParams site parts) :
    Yields (arrowParams parts) (Shows source site) := by
  unfold arrowParams
  split
  · exact shows_piece .nil trivial
  · rename_i p ps
    have mem : p ∈ p :: ps := List.mem_cons_self ..
    split
    · refine .bind (h.grounded p mem).toParams fun params holds => ?_
      exact shows_piece (h.lift_all mem holds) trivial
    · refine .bind (h.grounded p mem).toPattern fun q holds => ?_
      exact shows_piece (h.lift_all mem holds) trivial

theorem arrowBody_shows (h : Scene source .arrowBody site parts) : Yields (arrowBody site parts) (Shows source site) := by
  refine .bind first_yields fun p mem => ?_
  have toBody := (h.grounded p mem).toBody
  split
  · rename_i body piece
    obtain ⟨holds, inOrder⟩ := toBody body (by simp [Part.toBody, piece])
    exact shows_piece (h.lift_all mem holds) inOrder
  · rename_i other
    rcases List.mem_pair.1 (h.inside.called mem) with isBlock | isExpr
    · obtain ⟨body, piece⟩ := Piece.eq_body ((h.inside.sound p mem).role isBlock rfl)
      exact absurd piece (other body)
    · refine .bind (h.expr .assign mem isExpr rfl) fun e holds => ?_
      exact shows_piece holds trivial

theorem args_shows {rule : Rule} (h : Scene source rule site parts) : Yields (args parts) (Shows source site) := by
  have listed : Yields (optional parts .argList Part.toArgs) fun args =>
      site.Holds source 0 ((args.getD []).map .item) :=
    optional_yields .nil fun p mem _ => (h.grounded p mem).toArgs.imp fun _ => h.lift_all mem
  refine .bind listed fun args holds => ?_
  exact shows_piece holds trivial

theorem newExpr_shows (h : Scene source .newExpr site parts) : Yields (newExpr site parts) (Shows source site) := by
  refine read_yields (P := fun callee => site.Holds source 1 [⟨.constructor, .expr callee⟩]) ?_ fun callee holds => ?_
  · intro p mem is
    refine (h.grounded p mem).toExpr.imp fun e between => ?_
    rw [is] at between
    exact h.lift mem (.single between)
  have listed : Yields (optional parts .newArgs Part.toArgs) fun args =>
      site.Holds source 1 ((args.getD []).map .item) :=
    optional_yields .nil fun p mem _ => (h.grounded p mem).toArgs.imp fun _ => h.lift mem
  refine .bind listed fun args holdsArgs => ?_
  exact h.shows_expr rfl trivial (Precedence.le_refl _) rfl rfl (List.forall_mem_nil _) (holds.append holdsArgs)

/-! ## Postfixes -/

/-- What a postfix makes of the expression before it is as fit for the slot. -/
def Keeps (slot : Slot) (r : Rule) : Prop :=
  slot = .least .call ∨ slot = .constructor ∧ (r = .memberAccess ∨ r = .indexAccess)

/-- An expression that begins with what has been read so far and ends with a postfix. -/
theorem postfix_between {slot : Slot} {left e : Expr} {lo mid : Nat} {q : Part} {cs : List Child}
    (hl : Child.Between source lo mid 0 ⟨slot, .expr left⟩) (call : slot.implies (.least .call) = true)
    (stands : q.Stands source) (solid : mayBeEmpty q.rule = false) (later : mid ≤ q.start.offset)
    (span : e.span = left.span.merge q.span) (formed : (Node.expr e).Formed source) (admits : slot.Admits (.expr e))
    (plain : (Node.expr e).margin = 1 ∧ (Node.expr e).text? = none ∧ (Node.expr e).bodies = [])
    (children : e.children = .expr .call left :: cs) (holds : q.Holds source 0 cs) :
    Child.Between source lo q.stop.offset 0 ⟨slot, .expr e⟩ := by
  obtain ⟨margin, records, bodies⟩ := plain
  have taken : q.start.offset < q.stop.offset := stands.solid solid
  have nonempty := hl.nonempty
  have stops := hl.stop
  simp only [Node.span] at nonempty stops
  have merged : left.span.merge q.span = ⟨left.span.start, q.stop.place⟩ :=
    Span.merge_eq (show left.span.start.offset ≤ q.start.offset by omega)
      (show left.span.stop.offset ≤ q.stop.offset by omega) hl.sound.here.placed.stop stands.stop
  refine grown hl (span.trans merged) stands.stop ?_ formed admits records (bodies ▸ List.forall_mem_nil _) ?_
  · exact Nat.lt_of_le_of_lt later taken
  rw [margin]
  show ∀ c ∈ e.children, _
  rw [children]
  refine List.forall_mem_cons.2 ⟨?_, fun c mem => ?_⟩
  · exact leads (hl.weaken call) (Nat.lt_of_le_of_lt later taken)
  · exact follows hl (holds c mem) later (Nat.le_refl _)

theorem applyPostfix_yields {rule : Rule} (h : Scene source rule site parts) {slot : Slot} {left : Expr} {lo mid : Nat}
    {q : Part} (mem : q ∈ parts) (keeps : Keeps slot q.rule)
    (hl : Child.Between source lo mid 0 ⟨slot, .expr left⟩) (later : mid ≤ q.start.offset) :
    Yields (applyPostfix left q) fun e => Child.Between source lo q.stop.offset 0 ⟨slot, .expr e⟩ := by
  have stands := h.stands q mem
  have grounded := h.grounded q mem
  have call : slot.implies (.least .call) = true := by
    rcases keeps with rfl | ⟨rfl, _⟩ <;> rfl
  -- only a plain member or element may follow in what `new` constructs
  have isCall (notMember : q.rule ≠ .memberAccess) (notIndex : q.rule ≠ .indexAccess) {e : Expr}
      (level : e.precedence = .call) : slot.Admits (.expr e) := by
    rcases keeps with rfl | ⟨-, is | is⟩
    · exact Nat.le_of_eq (congrArg Precedence.rank level.symm)
    · exact absurd is notMember
    · exact absurd is notIndex
  have isAccess {e : Expr} (level : e.precedence = .call) (same : e.isConstructor = left.isConstructor) :
      slot.Admits (.expr e) := by
    rcases keeps with rfl | ⟨rfl, _⟩
    · exact Nat.le_of_eq (congrArg Precedence.rank level.symm)
    · exact same.trans hl.admits
  unfold applyPostfix
  dsimp only
  split
  case h_1 is | h_2 is =>
    refine .bind grounded.toArgs fun args holds => .ok ?_
    exact postfix_between hl call stands (is ▸ rfl) later rfl trivial (isCall (by simp [is]) (by simp [is]) rfl)
      ⟨rfl, rfl, rfl⟩ rfl holds
  case h_3 is =>
    refine .bind (P := fun _ => True) (fun _ _ => trivial) fun name _ => .ok ?_
    exact postfix_between hl call stands (is ▸ rfl) later rfl trivial (isAccess rfl rfl) ⟨rfl, rfl, rfl⟩ rfl .nil
  case h_4 is =>
    refine .bind (P := fun _ => True) (fun _ _ => trivial) fun name _ => .ok ?_
    exact postfix_between hl call stands (is ▸ rfl) later rfl trivial (isCall (by simp [is]) (by simp [is]) rfl)
      ⟨rfl, rfl, rfl⟩ rfl .nil
  case h_5 is =>
    refine .bind grounded.toExpr fun inner between => .ok ?_
    rw [is] at between
    exact postfix_between hl call stands (is ▸ rfl) later rfl trivial (isAccess rfl rfl) ⟨rfl, rfl, rfl⟩ rfl
      (.single between)
  case h_6 is =>
    refine .bind grounded.toExpr fun inner between => .ok ?_
    rw [is] at between
    exact postfix_between hl call stands (is ▸ rfl) later rfl trivial (isCall (by simp [is]) (by simp [is]) rfl)
      ⟨rfl, rfl, rfl⟩ rfl (.single between)
  case h_7 => exact .ok (hl.wider (Nat.le_refl _) (Nat.le_trans later stands.ordered))
  case h_8 is =>
    have literal : Yields q.toExpr fun inner => ∃ quasis exprs span, inner = .template quasis exprs span := by
      obtain ⟨quasis, exprs, span, piece⟩ := (h.inside.sound q mem).makes.template (.inr is)
      simp only [Part.toExpr, is, piece]
      exact .ok ⟨quasis, exprs, span, rfl⟩
    refine .bind (grounded.toExpr.and literal) fun inner known => .ok ?_
    obtain ⟨between, isTemplate⟩ := known
    rw [is] at between
    exact postfix_between hl call stands (is ▸ rfl) later rfl isTemplate (isCall (by simp [is]) (by simp [is]) rfl)
      ⟨rfl, rfl, rfl⟩ rfl (.single between)
  case h_9 => exact .error

/-- Postfixes are applied from the left: what has been read so far ends where the last postfix does. -/
theorem foldlM_applyPostfix_yields {rule : Rule} (h : Scene source rule site parts) {slot : Slot} {left : Expr}
    {mid : Nat} {rest : List Part} (among : rest.Sublist parts) (keeps : ∀ q ∈ rest, Keeps slot q.rule)
    (hl : Child.Between source site.start.offset mid 0 ⟨slot, .expr left⟩)
    (later : ∀ q ∈ rest, mid ≤ q.start.offset) (within : mid ≤ site.stop.offset) :
    Yields (rest.foldlM applyPostfix left) fun e => site.Holds source 0 [⟨slot, .expr e⟩] := by
  induction rest generalizing left mid with
  | nil => exact .ok (.single (hl.wider (Nat.le_refl _) within))
  | cons q qs ih =>
    obtain ⟨keepsFirst, keepsRest⟩ := List.forall_mem_cons.1 keeps
    have mem : q ∈ parts := among.subset (List.mem_cons_self ..)
    have apart := (List.pairwise_cons.1 (h.apart.sublist among)).1
    refine .bind (applyPostfix_yields h mem keepsFirst hl (later q (List.mem_cons_self ..))) fun e between => ?_
    exact ih ((List.sublist_cons_self q qs).trans among) keepsRest between apart (h.contains q mem).2

/-- An expression in front and postfixes after it. -/
theorem postfixes_shows {rule : Rule} (h : Scene source rule site parts) {head tail : Grammar.Body}
    (shape : ruleBody rule = .seq head (.star tail)) (single : head.single = true)
    (heads : ∀ r ∈ head.calls, (slotOf r).implies (slotOf rule) = true)
    (tails : ∀ r ∈ tail.calls, Keeps (slotOf rule) r) : Yields (postfixes site parts) (Shows source site) := by
  obtain ⟨ps, qs, rfl, first, rest⟩ := (shape ▸ h.inside).seq
  obtain ⟨p, rfl, -, called⟩ := first.single single
  obtain ⟨starts, stops⟩ := h.contains p (List.mem_cons_self ..)
  refine .bind (h.grounded p (List.mem_cons_self ..)).toExpr fun e between => ?_
  have hl := (between.weaken (heads _ called)).wider starts (Nat.le_refl _)
  have keeps : ∀ q ∈ qs, Keeps (slotOf rule) q.rule := fun q mem => tails _ (rest.called mem)
  have apart := (List.pairwise_cons.1 h.apart).1
  refine .bind (foldlM_applyPostfix_yields h (List.sublist_cons_self p qs) keeps hl apart stops) fun whole holds => ?_
  refine shows_piece ?_ trivial
  rw [← h.is] at holds
  exact holds

theorem callExpr_shows (h : Scene source .callExpr site parts) : Yields (postfixes site parts) (Shows source site) :=
  postfixes_shows h rfl rfl (by decide) fun _ _ => .inl rfl

theorem newCallee_shows (h : Scene source .newCallee site parts) : Yields (postfixes site parts) (Shows source site) :=
  postfixes_shows h rfl rfl (by decide) fun _ mem => .inr ⟨rfl, List.mem_pair.1 mem⟩

end FlowScript.Parse
