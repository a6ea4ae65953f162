import FlowScript.Proofs.Printer.Writes

/-!
# Rendering fails on depth alone

A printer that counts levels and indentation finds both counters as they were after every node that it printed, and
stops at a node exactly when some path down it has more levels than are left. What is rendered is what such a printer
writes.
-/

namespace FlowScript

/-- Some path down the node has more levels than are left. -/
def Node.TooDeep (left : Nat) (n : Node) : Prop := ∃ path, n.Path path ∧ left < Node.levels path

theorem Node.tooDeep_iff {n : Node} {left : Nat} : n.TooDeep left ↔ n.fits left = false := by
  rw [← Bool.not_eq_true, fits_iff_paths]
  simp [TooDeep]

/-- An attempt to render a node gives what the printer with counters writes, and is replaced by the text for what was not
    rendered where the node is too deep, and only there. -/
def Node.RenderedAs (n : Node) (p : Printer) (attempt : Except RenderError String) (rendered : String) : Prop :=
  attempt = (n.emit p .start).map (·.2.out) ∧
    (n.TooDeep maxPrintDepth ∧ attempt = .error .tooDeep ∧ rendered = renderFailed ∨
      ¬ n.TooDeep maxPrintDepth ∧ ∃ text, attempt = .ok text ∧ rendered = text)

theorem Node.renderedAs (n : Node) (p : Printer) :
    n.RenderedAs p (renderIf (n.fits maxPrintDepth) (n.print p 0))
      (orRenderFailed (renderIf (n.fits maxPrintDepth) (n.print p 0))) := by
  have run := n.writes p maxPrintDepth .start rfl
  rw [RenderedAs, run, tooDeep_iff]
  cases n.fits maxPrintDepth with
  | false => exact ⟨rfl, .inl ⟨rfl, rfl, rfl⟩⟩
  | true => exact ⟨congrArg _ String.empty_append.symm, .inr ⟨by simp, _, rfl, rfl⟩⟩

/-- From every state a printer stops at a node exactly when some path down the node has more levels than are left, and
    else writes a text and finds its counters as they were. So it does not matter in what order, how often and beside how
    many others a node's children stand. A rendered node is what the printer writes from the start, in every style and
    with every choice of words for operators, and the text for what was not rendered stands for it exactly when a path
    down it has more than `maxPrintDepth` levels. -/
theorem emit_fails_iff_tooDeep :
    (∀ (n : Node) (p : Printer) (st : PrintState),
      n.TooDeep (maxPrintDepth - st.depth) ∧ n.emit p st = .error .tooDeep ∨
        ¬ n.TooDeep (maxPrintDepth - st.depth) ∧ ∃ text, n.emit p st = .ok ((), { st with out := st.out ++ text })) ∧
      (∀ n m : Node, n.own = m.own → (∀ x, x ∈ n.printed.map Child.node ↔ x ∈ m.printed.map Child.node) →
        ∀ left, n.TooDeep left ↔ m.TooDeep left) ∧
      (∀ style : CodeStyle,
        (∀ s : Stmt, (Node.stmt s).RenderedAs (.plain style) (s.tryRender style) (s.render style)) ∧
          (∀ e : Expr, (Node.expr e).RenderedAs (.plain style) (e.tryRender style) (e.render style)) ∧
          ∀ x : Pattern, (Node.pattern x).RenderedAs (.plain style) (x.tryRender style) (x.render style)) ∧
      ∀ (words : BinaryOp → Option String) (e : Expr),
        (Node.expr e).RenderedAs ⟨.oneLine, words⟩ (e.tryRenderWithWords words) (e.renderWithWords words) := by
  refine ⟨fun n p st => ?_, fun n m own same left => ?_, fun style => ⟨fun s => ?_, fun e => ?_, fun x => ?_⟩,
    fun words e => ?_⟩
  · have run := n.writes p _ st rfl
    rw [run, Node.tooDeep_iff]
    cases n.fits (maxPrintDepth - st.depth) with
    | false => exact .inl ⟨rfl, rfl⟩
    | true => exact .inr ⟨by simp, _, rfl⟩
  · rw [Node.tooDeep_iff, Node.tooDeep_iff, Node.fits_congr own same]
  · exact (Node.stmt s).renderedAs _
  · exact (Node.expr e).renderedAs _
  · exact (Node.pattern x).renderedAs _
  · exact (Node.expr e).renderedAs _

/-- The arrays `[a, b]` and `[b, a, a]`. -/
private def twoOrders : Node × Node :=
  (.expr (.array [some (.ident "a" .none), some (.ident "b" .none)] .none),
    .expr (.array [some (.ident "b" .none), some (.ident "a" .none), some (.ident "a" .none)] .none))

/-- The elements of an array may stand in another order and more often: it is too deep at the same depths. -/
theorem emit_fails_iff_tooDeep_twoOrders :
    twoOrders.1.own = twoOrders.2.own ∧
      (∀ x, x ∈ twoOrders.1.printed.map Child.node ↔ x ∈ twoOrders.2.printed.map Child.node) ∧
      ∀ left, twoOrders.1.TooDeep left ↔ twoOrders.2.TooDeep left := by
  have same : ∀ x, x ∈ twoOrders.1.printed.map Child.node ↔ x ∈ twoOrders.2.printed.map Child.node := by
    intro x
    show x ∈ [Node.expr (.ident "a" .none), .expr (.ident "b" .none)] ↔
      x ∈ [Node.expr (.ident "b" .none), .expr (.ident "a" .none), .expr (.ident "a" .none)]
    simp only [List.mem_cons, List.not_mem_nil]
    tauto
  exact ⟨rfl, same, emit_fails_iff_tooDeep.2.1 twoOrders.1 twoOrders.2 rfl same⟩

end FlowScript
