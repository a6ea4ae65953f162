import FlowScript.Printer.Render
import FlowScript.Proofs.Parse.SourceLevels
import FlowScript.Proofs.Printer.Visit

/-!
# How deep a tree nests

The weight of the pass over the tokens bounds the levels on a way down that the pass counts, not the others: a sign
before an operand, or a call behind a call, is nothing to it (`depth_of_parse`). In a sound tree each level takes a byte,
so no node nests deeper than its text is long.
-/

namespace FlowScript

/-! ## The depth of a sound tree -/

/-- How much deeper than one less than its bytes a node may nest: a statement is a level around what may take all its
    bytes, and a function is no level of its own. -/
def Node.slack : Node → Nat
  | stmt _ => 2
  | function _ => 0
  | _ => 1

@[simp] theorem Node.slack_expr (e : Expr) : (expr e).slack = 1 := rfl

@[simp] theorem Node.slack_pattern (p : Pattern) : (pattern p).slack = 1 := rfl

@[simp] theorem Node.slack_stmt (s : Stmt) : (stmt s).slack = 2 := rfl

@[simp] theorem Node.slack_function (f : Function) : (function f).slack = 0 := rfl

@[simp] theorem Node.slack_declarator (d : Declarator) : (declarator d).slack = 1 := rfl

theorem Node.slack_le (n : Node) : n.slack ≤ 2 := by
  cases n <;> simp [slack]

theorem PropKey.slack_child {key : PropKey} : ∀ c ∈ key.children, c.node.slack ≤ 1 := by
  cases key <;> simp [PropKey.children]

theorem ObjectProp.slack_child {prop : ObjectProp} : ∀ c ∈ prop.children, c.node.slack ≤ 1 := by
  cases prop with
  | keyValue key | method key => exact List.forall_mem_append.2 ⟨PropKey.slack_child, by simp⟩
  | _ => simp [ObjectProp.children, Child.optional]

theorem PatternProp.slack_child {prop : PatternProp} : ∀ c ∈ prop.children, c.node.slack ≤ 1 := by
  cases prop with
  | keyValue key => exact List.forall_mem_append.2 ⟨PropKey.slack_child, by simp⟩
  | _ => simp [PatternProp.children, Child.optional]

/-- The children of an expression are no statements, but for those of an arrow function. -/
theorem Expr.slack_child {e : Expr} : ∀ c ∈ e.children, c.node.slack ≤ (Node.expr e).margin := by
  cases e with
  | arrow => exact fun c _ => c.node.slack_le
  | object props span =>
    intro c mem
    obtain ⟨prop, _, mem⟩ := List.mem_flatMap.1 mem
    exact ObjectProp.slack_child c mem
  | _ => simp [Expr.children, Node.margin, or_imp, forall_and]

/-- The children of a pattern are no statements. -/
theorem Pattern.slack_child {p : Pattern} : ∀ c ∈ p.children, c.node.slack ≤ 1 := by
  cases p with
  | object props span =>
    intro c mem
    obtain ⟨prop, _, mem⟩ := List.mem_flatMap.1 mem
    exact PatternProp.slack_child c mem
  | _ => simp [Pattern.children]

/-- Where a statement leaves no margin, its children are no statements. -/
theorem Stmt.slack_child {s : Stmt} : ∀ c ∈ s.children, c.node.slack ≤ (Node.stmt s).margin + 1 := by
  cases s with
  | varDecl | function | ret | throw | expr => simp [Stmt.children, Node.margin, Child.optional]
  | _ => exact fun c _ => c.node.slack_le

/-- Each level takes a byte from what stands around it. -/
theorem Node.slack_child {n : Node} {c : Child} (mem : c ∈ n.children) :
    c.node.slack + n.own ≤ n.margin + n.slack := by
  cases n with
  | expr e => exact Nat.succ_le_succ (Expr.slack_child c mem)
  | pattern p => exact Nat.succ_le_succ (Pattern.slack_child c mem)
  | stmt s => exact Nat.succ_le_succ (Stmt.slack_child c mem)
  | function | catchClause | switchCase => exact c.node.slack_le
  | declarator d =>
    obtain ⟨target, init, span⟩ := d
    revert c
    simp [Node.children, Declarator.children, Child.optional, Node.own, Node.margin]

/-- A node whose children are sound fits as many levels as it has bytes, and one more if it is a statement. -/
theorem Node.fits_of_sound {source : List Char} {n : Node} (h : n.Everywhere (Node.Sound source)) (k : Nat)
    (deep : n.length + n.slack ≤ k + 1) : n.fits k = true := by
  induction h generalizing k with
  | @node n here _ ih =>
    have nonempty := here.placed.nonempty
    have level : n.own ≤ k := by
      cases n <;> simp only [Node.own, Node.length, Node.slack] at * <;> omega
    obtain ⟨inner, rfl⟩ := Nat.exists_eq_add_of_le' level
    refine fits_of_children (List.all_eq_true.2 fun c mem => ih c mem inner ?_)
    have room := here.roomy c mem
    have := slack_child mem
    omega

/-! ## What a node that fits holds -/

/-- In a sound tree all children are printed: a template has text before each substitution. -/
theorem Node.Formed.printed_eq {source : List Char} {n : Node} (formed : n.Formed source) : n.printed = n.children := by
  by_cases template : n.IsTemplate
  · obtain ⟨quasis, exprs, span, rfl⟩ := template
    have enough : exprs.length ≤ quasis.length := formed.1 ▸ Nat.le_succ _
    exact congrArg (List.map _) (List.take_of_length_le enough)
  · exact Node.printed_eq_children template

/-- What a sound node holds fits where it does. -/
theorem Node.fits_of_holds {source : List Char} {n m : Node} (held : n.Holds m)
    (sound : n.Everywhere (Node.Sound source)) {k : Nat} (fits : n.fits k = true) : m.fits k = true := by
  induction held with
  | self => exact fits
  | @inside n c m mem held ih =>
    refine ih (sound.child mem) (fits_iff_paths.2 fun path goes => ?_)
    have whole := levels_le_of_fits (.down (sound.here.formed.printed_eq ▸ mem) goes) fits
    simp only [levels] at whole
    omega

/-! ## Sources that are read -/

/-- Every way of rendering a node gives its text. -/
def Node.Renders : Node → Prop
  | expr e =>
    (∀ style, e.tryRender style = .ok (e.print (.plain style) 0)) ∧
      ∀ words, e.tryRenderWithWords words = .ok (e.print ⟨.oneLine, words⟩ 0)
  | pattern p => ∀ style, p.tryRender style = .ok (p.print (.plain style) 0)
  | stmt s =>
    (∀ style, s.tryRender style = .ok (s.print (.plain style) 0)) ∧
      s.renderLoopHead = s.printLoopHead (.plain .oneLine)
  | _ => True

theorem Node.renders_of_fits {n : Node} (fits : n.fits maxPrintDepth = true)
    (children : Child.allFit maxPrintDepth n.children = true) : n.Renders := by
  cases n with
  | expr e => exact ⟨fun style => congrArg (renderIf · _) fits, fun words => congrArg (renderIf · _) fits⟩
  | pattern p => exact fun style => congrArg (renderIf · _) fits
  | stmt s =>
    refine ⟨fun style => congrArg (renderIf · _) fits, ?_⟩
    rw [Stmt.renderLoopHead, Stmt.finished_visitLoopHead children, orRenderFailed_renderIf_true]
  | _ => trivial

/-- All that is in a sound node that fits is rendered. -/
theorem Node.renders_of_holds {source : List Char} {n : Node} (sound : n.Everywhere (Node.Sound source))
    (fits : n.fits maxPrintDepth = true) : ∀ m, n.Holds m → m.Renders := by
  intro m held
  refine renders_of_fits (fits_of_holds held sound fits) (List.all_eq_true.2 fun c mem => ?_)
  exact fits_of_holds (held.child mem) sound fits

/-- How deep the items of a source nest that is read. A way down an item has a level for the item, levels that the pass
    over the tokens counts, and others. In a legible source the weight of the pass, which is nowhere above its limit,
    bounds those that count. So where at most 127 others are on each way, the item is rendered with all that is in it.
    So is one of fewer bytes than `maxPrintDepth`, whatever it holds, since each level takes a byte; and exactly an item
    that does not fit is not rendered. -/
theorem depth_of_parse {source : String} {m : Module} (read : parseModule source = .ok m) :
    ∀ item ∈ m.items,
      (Parse.Legible source.toList →
        (∀ goal k l, (Node.stmt item).Leads source.toList goal k l →
          k ≤ (Nesting.stateAt source.toList goal).weight) ∧
        ((∀ goal k l, (Node.stmt item).Leads source.toList goal k l → 1 + Nesting.limit + l ≤ maxPrintDepth) →
          ∀ n, (Node.stmt item).Holds n → n.Renders)) ∧
      (∀ path, (Node.stmt item).Path path → ∃ goal k l, (Node.stmt item).Leads source.toList goal k l ∧
        Node.levels path ≤ 1 + k + l) ∧
      (∀ goal, (Nesting.stateAt source.toList goal).weight ≤ Nesting.limit) ∧
      (∀ n, (Node.stmt item).Holds n → ∀ k, n.length < k → n.fits k = true) ∧
      ((Node.stmt item).length < maxPrintDepth → ∀ n, (Node.stmt item).Holds n → n.Renders) ∧
      ∀ style, (item.tryRender style = .error .tooDeep ↔ item.fits maxPrintDepth = false) ∧
        (item.fits maxPrintDepth = false → item.render style = renderFailed) := by
  intro item mem
  have sound := (sound_of_parse read).1 item mem
  have fits : ∀ n, (Node.stmt item).Holds n → ∀ k, n.length < k → n.fits k = true := by
    intro n held k deep
    have := n.slack_le
    exact Node.fits_of_sound (sound.inside held) k (by omega)
  have weight := Nesting.weight_stateAt_le (tooDeep?_of_parse read)
  refine ⟨fun legible => ?_, fun path => Node.exists_leads, weight, fits, fun short => ?_, fun style => ⟨?_, fun deep => ?_⟩⟩
  · obtain ⟨tree, part, parsed, built, becomes, body, -⟩ := exists_tree_of_parse read
    have light := Parse.items_light legible parsed built becomes body (.stmt item) (List.mem_map_of_mem mem)
    have counted : ∀ goal k l, (Node.stmt item).Leads source.toList goal k l →
        k ≤ (Nesting.stateAt source.toList goal).weight := fun goal k l leads => by
      have := (light goal k l leads).2.1
      omega
    refine ⟨counted, fun others => Node.renders_of_holds sound (Node.fits_of_paths fun path goes => ?_)⟩
    obtain ⟨goal, k, l, leads, bound⟩ := Node.exists_leads goes
    have := counted goal k l leads
    have := weight goal
    have := others goal k l leads
    have : (Node.stmt item).due = 1 := rfl
    omega
  · exact Node.renders_of_holds sound (fits _ .self _ short)
  · unfold Stmt.tryRender renderIf
    split <;> simp_all
  · rw [Stmt.render, Stmt.tryRender, deep]
    rfl

/-- Whether the only statement takes six bytes and is a negated name in two arrays, the name at offset 3. -/
private def isNestedNegation : List Stmt → Bool
  | [.expr (.array [some (.array [some (.unary _ (.ident _ ⟨⟨3, _, _⟩, _⟩) _)] _)] _) ⟨⟨0, _, _⟩, ⟨6, _, _⟩⟩] => true
  | _ => false

/-- The two arrays count on the way to the name. -/
private theorem leads_nestedNegation {source : List Char} {op : UnaryOp} {name : String} {goal line column : Nat}
    {stop : Position} {u v w x : Span} :
    (Node.stmt (.expr (.array [some (.array [some (.unary op (.ident name ⟨⟨goal, line, column⟩, stop⟩) u)] v)] w)
      x)).Leads source goal 2 2 := by
  have item {s : Stmt} : ¬ (Node.stmt s).IsTemplate := fun ⟨_, _, _, is⟩ => nomatch is
  have array {es : List (Option Expr)} {y : Span} : ¬ (Node.expr (.array es y)).IsTemplate :=
    fun ⟨_, _, _, is⟩ => nomatch is
  have unary {e : Expr} {y : Span} : ¬ (Node.expr (.unary op e y)).IsTemplate := fun ⟨_, _, _, is⟩ => nomatch is
  -- from the name upwards
  have atName : (Node.expr (.ident name ⟨⟨goal, line, column⟩, stop⟩)).Leads source goal 0 0 := .stop rfl
  have atSign {e : Expr} {y : Span} : (Entry.plain, Child.expr .unary e) ∈ (Node.expr (.unary op e y)).entries :=
    List.mem_singleton_self _
  have inArray {e : Expr} {y : Span} : (Entry.bracket, Child.item e) ∈ (Node.expr (.array [some e] y)).entries :=
    List.mem_singleton_self _
  have inItem {e : Expr} {y : Span} : (Entry.plain, Child.expr .sequence e) ∈ (Node.stmt (.expr e y)).entries :=
    List.mem_singleton_self _
  exact .loose item inItem id (.counted array inArray trivial (.counted array inArray trivial (.loose unary atSign id atName)))

set_option maxRecDepth 100000 in
/-- Of the five levels down to the name one is that of the item, and the two in brackets count. -/
theorem depth_of_parse_nested :
    ∃ m item, parseModule "[[!x]]" = .ok m ∧ m.items = [item] ∧ Parse.Legible "[[!x]]".toList ∧
      (Node.stmt item).Leads "[[!x]]".toList 3 2 2 ∧ 2 ≤ (Nesting.stateAt "[[!x]]".toList 3).weight ∧
      (Nesting.stateAt "[[!x]]".toList 3).weight ≤ Nesting.limit ∧ ∀ n, (Node.stmt item).Holds n → n.Renders := by
  have shape : (parseModule "[[!x]]").toOption.map (isNestedNegation ·.items) = some true := by decide +kernel
  obtain ⟨m, read, shape⟩ := exists_of_toOption_map shape
  have legible : Parse.Legible "[[!x]]".toList := Parse.legible_of_plain (by decide) (by decide) (by decide)
  unfold isNestedNegation at shape
  split at shape
  · rename_i items
    obtain ⟨deep, -, weight, -, short, -⟩ := depth_of_parse read _ (items ▸ List.mem_singleton_self _)
    exact ⟨m, _, read, items, legible, leads_nestedNegation, (deep legible).1 3 2 2 leads_nestedNegation, weight 3,
      short (show 6 - 0 < 256 by decide)⟩
  · cases shape

/-- Where a source is not legible, fewer levels may count than there are brackets: for the pass the quote in this regular
    expression begins a string, so at the name, in two arrays, only the outer one is open. -/
example : ((parseModule "[/\x22/,[x]]").toOption.any fun m => match m.items with
      | [.expr (.array [_, some (.array [some (.ident _ ⟨⟨6, _, _⟩, _⟩)] _)] _) _] => true
      | _ => false) = true ∧
    (Nesting.stateAt "[/\x22/,[x]]".toList 6).weight = 1 := by decide +kernel

/-- Whether so many signs stand before a name. -/
private def signsBefore : Nat → Expr → Bool
  | 0, .ident .. => true
  | n + 1, .unary _ e _ => signsBefore n e
  | _, _ => false

/-- Each sign is a level. -/
private theorem fits_of_signsBefore {n k : Nat} {e : Expr} (signs : signsBefore n e = true) (few : k ≤ n) :
    e.fits k = false := by
  induction n generalizing e k with
  | zero =>
    rw [Nat.le_zero.1 few]
    exact Node.not_fits_zero (n := .expr e) rfl
  | succ n ih =>
    cases k with
    | zero => exact Node.not_fits_zero (n := .expr e) rfl
    | succ k =>
      unfold signsBefore at signs
      split at signs
      · rename_i is
        cases is
      · rename_i is
        cases is
        rw [Expr.fits_succ_eq]
        simp [Expr.printed, Expr.children, Child.allFit, Node.fits, ih signs (Nat.le_of_succ_le_succ few)]
      · cases signs

/-- A name after 255 signs of negation. -/
def negations : String := String.ofList (List.replicate 255 '!' ++ ['x'])

/-- Whether the only statement takes 256 bytes, and is a name after 255 signs. -/
private def isNegations : List Stmt → Bool
  | [.expr e ⟨⟨0, _, _⟩, ⟨256, _, _⟩⟩] => signsBefore 255 e
  | _ => false

set_option maxRecDepth 1000000 in
/-- Where a source is read, signs before an operand count as no nesting. So a statement of `maxPrintDepth` bytes, the
    fewest with which that can happen, is read and not rendered. -/
theorem negations_renderFailed :
    ∃ m item, parseModule negations = .ok m ∧ m.items = [item] ∧ (Node.stmt item).length = maxPrintDepth ∧
      item.fits maxPrintDepth = false ∧
      ∀ style, item.tryRender style = .error .tooDeep ∧ item.render style = renderFailed := by
  obtain ⟨m, read, shape⟩ : ∃ m, parseModule negations = .ok m ∧ isNegations m.items = true :=
    exists_of_chars String.toList_ofList (by decide +kernel) (by decide +kernel)
  unfold isNegations at shape
  split at shape
  · rename_i e line column line' column' items
    have deep : (Stmt.expr e ⟨⟨0, line, column⟩, ⟨256, line', column'⟩⟩).fits maxPrintDepth = false := by
      rw [maxPrintDepth, Stmt.fits_succ]
      simp [Stmt.children, Child.allFit, Node.fits, fits_of_signsBefore shape (Nat.le_refl _)]
    have failed : ∀ style, (Stmt.expr e ⟨⟨0, line, column⟩, ⟨256, line', column'⟩⟩).tryRender style =
        .error .tooDeep := by
      intro style
      rw [Stmt.tryRender, deep]
      rfl
    refine ⟨m, _, read, items, rfl, deep, fun style => ⟨failed style, ?_⟩⟩
    rw [Stmt.render, failed]
    rfl
  · cases shape

end FlowScript
