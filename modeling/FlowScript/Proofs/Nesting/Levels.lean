import FlowScript.Proofs.Nesting.Open
import FlowScript.Proofs.Printer.Paths

/-!
# Levels that count

The pass over the tokens counts a level of a tree where a child stands in brackets of its node, or behind a sign of
bracketless nesting that is still open (`Entry.Counts`). The other levels on the way down are loose: nothing bounds
them. The weight at a place is no less than the number of counted levels around what begins there, if the pass stands
deeper at each child as the way to it says (`Node.light_of_entries`).
-/

namespace FlowScript
open Nesting (Deeper Chained OnLevel TokenKind Unbroken chainWords stateAt tokens)

/-! ## The way to a child -/

/-- How the pass over the tokens takes the way from a node to a child. -/
inductive Entry
  /-- The child stands in brackets of the node. -/
  | bracket
  /-- The child stands behind a sign of bracketless nesting, in no brackets of the node. -/
  | chain
  /-- Nothing counts between them. -/
  | plain
deriving DecidableEq

/-- Children that are reached in one way. -/
def Entry.each (entry : Entry) (cs : List Child) : List (Entry × Child) := cs.map fun c => (entry, c)

/-- The parameters of an arrow function stand in parentheses, but for a name alone. -/
def paramsEntry : List Pattern → Entry
  | [.ident ..] => .plain
  | _ => .bracket

def ArrowBody.entries : ArrowBody → List (Entry × Child)
  | block body => Entry.bracket.each (body.map .stmt)
  | expr e => [(.chain, .expr .assign e)]

def Expr.entries : Expr → List (Entry × Child)
  | e@(array ..) | e@(object ..) | e@(paren ..) => Entry.bracket.each e.children
  | arrow _ params body _ => (paramsEntry params).each (params.map .pattern) ++ body.entries
  | conditional test consequent alternate _ =>
    (.plain, .expr .nullish test) :: Entry.chain.each [.expr .assign consequent, .expr .assign alternate]
  | call callee args _ _ => (.plain, .expr .call callee) :: Entry.bracket.each (args.map .item)
  | new callee args _ => (.plain, ⟨.constructor, .expr callee⟩) :: Entry.bracket.each ((args.getD []).map .item)
  | index inner at_ _ _ => [(.plain, .expr .call inner), (.bracket, .expr .sequence at_)]
  | e => Entry.plain.each e.children

def Pattern.entries : Pattern → List (Entry × Child)
  | p@(object ..) | p@(array ..) => Entry.bracket.each p.children
  | p => Entry.plain.each p.children

def Stmt.entries : Stmt → List (Entry × Child)
  | s@(block ..) | s@(switch ..) => Entry.bracket.each s.children
  | ifElse test consequent alternate _ =>
    Entry.bracket.each (Child.optional .sequence test) ++
      Entry.chain.each (.stmt consequent :: alternate.toList.map .stmt)
  | .for init test update body _ =>
    Entry.bracket.each (init.toList.flatMap ForInit.children ++ Child.optional .sequence test ++
      Child.optional .sequence update) ++ [(.chain, .stmt body)]
  | forEach _ _ left right body _ =>
    Entry.bracket.each (left.children ++ [.expr .sequence right]) ++ [(.chain, .stmt body)]
  | .while test body _ => Entry.bracket.each (Child.optional .sequence test) ++ [(.chain, .stmt body)]
  | doWhile body test _ => (.chain, .stmt body) :: Entry.bracket.each (Child.optional .sequence test)
  | .try tried handler finalizer _ =>
    Entry.bracket.each (tried.map .stmt) ++
      Entry.plain.each (handler.toList.map fun clause => ⟨.other, .catchClause clause⟩) ++
      Entry.bracket.each (finalizer.toList.flatten.map .stmt)
  | s => Entry.plain.each s.children

namespace Node

/-- The children of a node, each with the way that leads to it. -/
def entries : Node → List (Entry × Child)
  | expr e => e.entries
  | pattern p => p.entries
  | stmt s => s.entries
  | n@(function _) | n@(catchClause _) => Entry.bracket.each n.children
  | n => Entry.plain.each n.children

@[simp] theorem map_snd_each (entry : Entry) (cs : List Child) : (entry.each cs).map Prod.snd = cs := by
  simp [Entry.each, Function.comp_def]

/-- Every child is reached in one of the three ways. -/
theorem map_snd_entries (n : Node) : n.entries.map Prod.snd = n.children := by
  cases n with
  | expr e =>
    cases e with
    | arrow isAsync params body span =>
      cases body <;> simp [entries, Expr.entries, ArrowBody.entries, children, Expr.children, ArrowBody.children]
    | _ => simp [entries, Expr.entries, children, Expr.children]
  | pattern p => cases p <;> simp [entries, Pattern.entries, children]
  | stmt s => cases s <;> simp [entries, Stmt.entries, children, Stmt.children]
  | _ => simp [entries]

theorem exists_entry {n : Node} {c : Child} (mem : c ∈ n.children) : ∃ entry, (entry, c) ∈ n.entries := by
  rw [← map_snd_entries] at mem
  obtain ⟨⟨entry, _⟩, listed, rfl⟩ := List.mem_map.1 mem
  exact ⟨entry, listed⟩

/-! ## Counting -/

/-- A keyword of bracketless nesting begins at an offset. -/
def KeywordAt (source : List Char) (n : Nat) : Prop :=
  ∃ t ∈ tokens source, t.start = n ∧ ∃ chars ∈ chainWords, t.kind = .word chars

/-- The offset at which a node begins. -/
def offset (n : Node) : Nat := n.span.start.offset

/-- The sign of bracketless nesting in a node is one for the pass over the tokens: the keyword that a statement begins
    with is a word of its own there, and not the end of a longer one. -/
def Signed (source : List Char) : Node → Prop
  | n@(stmt _) => KeywordAt source n.offset
  | _ => True

end Node

/-- Whether the pass over the tokens counts a level on the way from a node to a child, as long as it has come no further
    than to an offset: a bracket counts, and so does a sign unless a word after it has ended the bracketless nesting. -/
def Entry.Counts (source : List Char) (n : Node) (goal : Nat) : Entry → Prop
  | bracket => True
  | chain => n.Signed source ∧ Unbroken source n.offset (n.offset + 1) goal
  | plain => False

/-- The levels that a node stands for on the way down. A case of a switch stands for what it holds. -/
def Node.due : Node → Nat
  | switchCase _ => 1
  | n => n.own

/-- The levels on a loose way from a node to a child. -/
def Node.looseTo : Node → Node → Nat
  | switchCase _, _ => 0
  | _, child => child.due

namespace Node

/-- A template, whose text is a quote for the pass over the tokens. -/
def IsTemplate (n : Node) : Prop := ∃ quasis exprs span, n = .expr (.template quasis exprs span)

/-- A way down from a node to one that begins at an offset, with the number of levels on it that count and that of the
    others. In a template no level counts. -/
inductive Leads (source : List Char) (goal : Nat) : Node → Nat → Nat → Prop
  | stop {n : Node} (here : n.offset = goal) : Leads source goal n 0 0
  | hidden {n : Node} {path : List Node} (quoted : n.IsTemplate) (here : n.offset = goal)
    (goes : n.Path (n :: path)) : Leads source goal n 0 (levels path)
  | counted {n : Node} {entry : Entry} {c : Child} {k l : Nat} (visible : ¬ n.IsTemplate) (mem : (entry, c) ∈ n.entries)
    (counts : entry.Counts source n goal) (rest : Leads source goal c.node k l) : Leads source goal n (k + 1) l
  | loose {n : Node} {entry : Entry} {c : Child} {k l : Nat} (visible : ¬ n.IsTemplate) (mem : (entry, c) ∈ n.entries)
    (free : ¬ entry.Counts source n goal) (rest : Leads source goal c.node k l) :
    Leads source goal n k (n.looseTo c.node + l)

/-- The weight of the pass over the tokens at every node in a node bounds the levels that count on the way there, `j`
    levels on top of those that are open at a place before. -/
def Light (source : List Char) (start j : Nat) (n : Node) : Prop :=
  ∀ goal k l, n.Leads source goal k l → start ≤ goal ∧
    (stateAt source start).outside + j + k ≤ (stateAt source goal).weight ∧
    (Unbroken source start start goal → (stateAt source start).weight + j + k ≤ (stateAt source goal).weight)

/-- The same with one more level for a sign of bracketless nesting at the place, which counts until a word behind the
    place ends it. -/
def Hangs (source : List Char) (start : Nat) (n : Node) : Prop :=
  ∀ goal k l, n.Leads source goal k l → Unbroken source start (start + 1) goal →
    (stateAt source start).outside + 1 + k ≤ (stateAt source goal).weight ∧
    (Unbroken source start start goal → (stateAt source start).weight + 1 + k ≤ (stateAt source goal).weight)

section
variable {source : List Char} {start m j : Nat} {n : Node}

namespace Light

theorem less (h : n.Light source start j) {i : Nat} (le : i ≤ j) : n.Light source start i := by
  intro goal k l leads
  obtain ⟨before, outer, inner⟩ := h goal k l leads
  refine ⟨before, by omega, fun whole => ?_⟩
  have := inner whole
  omega

/-- What is light at a place is as light at an earlier one on the same level. -/
theorem onLevel (h : n.Light source m j) (level : OnLevel source start m) (le : start ≤ m) : n.Light source start j := by
  intro goal k l leads
  obtain ⟨before, outer, inner⟩ := h goal k l leads
  refine ⟨Nat.le_trans le before, by rwa [← level.outside], fun whole => ?_⟩
  have kept := level.kept (whole.within (Nat.le_refl _) before)
  have := inner fun t mem from_ to_ depth => whole t mem (Nat.le_trans le from_) to_ (depth.trans level.depth)
  omega

/-- What is light in a bracket is light at an earlier place outside of it, with one more level. -/
theorem deeper (h : n.Light source m 0) (bracket : Deeper source start m) (le : start ≤ m) : n.Light source start 1 := by
  intro goal k l leads
  obtain ⟨before, outer, -⟩ := h goal k l leads
  have more := bracket.outside
  refine ⟨Nat.le_trans le before, by omega, fun whole => ?_⟩
  have := bracket.kept (whole.within (Nat.le_refl _) before)
  omega

/-- What is light behind a sign hangs on the sign. -/
theorem chained (h : n.Light source m 0) (sign : Chained source start m) : n.Hangs source start := by
  intro goal k l leads open_
  obtain ⟨before, -, inner⟩ := h goal k l leads
  have rest := inner fun t mem from_ to_ depth =>
    open_ t mem (Nat.le_trans sign.later from_) to_ (depth.trans sign.depth)
  have counts := sign.counts (open_.within (Nat.le_refl _) before)
  refine ⟨by omega, fun whole => ?_⟩
  have := sign.adds (whole.within (Nat.le_refl _) before)
  omega

/-- What stands right inside a light node is as light. -/
theorem child (h : n.Light source start j) (visible : ¬ n.IsTemplate) {c : Child} (mem : c ∈ n.children) :
    c.node.Light source start j := by
  intro goal k l leads
  obtain ⟨entry, listed⟩ := exists_entry mem
  by_cases counts : entry.Counts source n goal
  · obtain ⟨before, outer, inner⟩ := h goal _ _ (.counted visible listed counts leads)
    refine ⟨before, by omega, fun whole => ?_⟩
    have := inner whole
    omega
  · exact h goal _ _ (.loose visible listed counts leads)

end Light

/-- What the pass over the tokens has to find at a child of a node that begins at `start`, by the way to the child; a sign
    of the node counts if it is `signed`. -/
def Admits (source : List Char) (start : Nat) (signed : Prop) (x : Entry × Child) : Prop :=
  match x.1 with
  | .bracket => x.2.node.Light source start 1
  | .chain => x.2.node.Light source start 0 ∧ (signed → x.2.node.Hangs source start)
  | .plain => x.2.node.Light source start 0

/-- A place is no less deep than an earlier one, as far as the bracketless nesting goes on. -/
def NoLess (source : List Char) (start m : Nat) : Prop :=
  start ≤ m ∧ (stateAt source start).outside ≤ (stateAt source m).weight ∧
    (Unbroken source start start m → (stateAt source start).weight ≤ (stateAt source m).weight)

theorem NoLess.refl (source : List Char) (start : Nat) : NoLess source start start :=
  ⟨Nat.le_refl _, by rw [Nesting.State.weight_eq]; omega, fun _ => Nat.le_refl _⟩

theorem NoLess.of_onLevel (level : OnLevel source start m) (le : start ≤ m) : NoLess source start m := by
  refine ⟨le, ?_, level.kept⟩
  rw [← level.outside, Nesting.State.weight_eq]
  omega

theorem Light.noLess (h : n.Light source start 0) : NoLess source start n.offset := h n.offset 0 0 (.stop rfl)

/-- A node is light at a place if its children are, and it begins no less deep. A sign in it counts from where it
    begins. -/
theorem light_of_entries (begins : NoLess source start n.offset)
    (signs : ∀ x ∈ n.entries, x.1 = .chain → n.offset = start)
    (each : ¬ n.IsTemplate → ∀ x ∈ n.entries, Admits source start (n.Signed source) x) : n.Light source start 0 := by
  intro goal k l leads
  cases leads with
  | stop here => exact here ▸ begins
  | hidden quoted here goes => exact here ▸ begins
  | @counted _ entry c k l visible mem counts rest =>
    have admits := each visible _ mem
    cases entry with
    | bracket =>
      obtain ⟨before, outer, inner⟩ := (admits : c.node.Light source start 1) goal k l rest
      refine ⟨before, by omega, fun whole => ?_⟩
      have := inner whole
      omega
    | chain =>
      obtain ⟨light, hangs⟩ := admits
      obtain ⟨signed, open_⟩ := counts
      obtain ⟨before, -, -⟩ := light goal k l rest
      obtain ⟨outer, inner⟩ := hangs signed goal k l rest (signs _ mem rfl ▸ open_)
      refine ⟨before, by omega, fun whole => ?_⟩
      have := inner whole
      omega
    | plain => exact counts.elim
  | @loose _ entry c _ l visible mem free rest =>
    have admits := each visible _ mem
    cases entry with
    | bracket => exact absurd trivial free
    | chain => exact admits.1 goal k l rest
    | plain => exact admits goal k l rest

/-- A node is light where it begins if its children are. -/
theorem light_of_offset (begins : n.offset = start)
    (each : ¬ n.IsTemplate → ∀ x ∈ n.entries, Admits source start (n.Signed source) x) : n.Light source start 0 :=
  light_of_entries (begins ▸ .refl source n.offset) (fun _ _ _ => begins) each

/-! ## All ways down -/

theorem own_le_due (n : Node) : n.own ≤ n.due ∧ n.due ≤ 1 := by
  cases n <;> simp [due, own]

/-- What stands for a level on the way down to a child and is not counted is loose. -/
theorem due_le_looseTo (n c : Node) : n.own + c.due ≤ n.due + n.looseTo c := by
  cases n with
  | switchCase => exact (Nat.zero_add _).trans_le (own_le_due c).2
  | _ => exact Nat.le_refl _

theorem printed_eq_children {n : Node} (visible : ¬ n.IsTemplate) : n.printed = n.children := by
  cases n with
  | expr e =>
    cases e with
    | template quasis exprs span => exact absurd ⟨quasis, exprs, span, rfl⟩ visible
    | _ => rfl
  | _ => rfl

/-- Every path is a way down, on which the levels count or are loose. -/
theorem exists_leads {path : List Node} (goes : n.Path path) :
    ∃ goal k l, n.Leads source goal k l ∧ levels path ≤ n.due + k + l := by
  induction goes with
  | stop n =>
    have := own_le_due n
    exact ⟨n.offset, 0, 0, .stop rfl, by simpa [levels] using this.1⟩
  | @down n c path mem goes ih =>
    have := own_le_due n
    simp only [levels]
    by_cases quoted : n.IsTemplate
    · exact ⟨n.offset, 0, levels path, .hidden quoted rfl (.down mem goes), by omega⟩
    · obtain ⟨goal, k, l, leads, bound⟩ := ih
      obtain ⟨entry, listed⟩ := exists_entry (printed_eq_children quoted ▸ mem)
      have := own_le_due c.node
      have := due_le_looseTo n c.node
      by_cases counts : entry.Counts source n goal
      · exact ⟨goal, k + 1, l, .counted quoted listed counts leads, by omega⟩
      · exact ⟨goal, k, _, .loose quoted listed counts leads, by omega⟩

end
end Node
end FlowScript
