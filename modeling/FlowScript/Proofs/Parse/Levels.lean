import FlowScript.Proofs.Grammar.Brackets
import FlowScript.Proofs.Nesting.Levels
import FlowScript.Proofs.Parse.Scene

/-!
# The levels in a part

A part is light when the weight of the pass over the tokens bounds the levels that count in it, from where its match
begins; in some matches the nodes stand in brackets of the match itself (`Part.inner`). The pass finds the parts of a
match where the rule says: in brackets of the match, behind a sign, or on the level where the match begins (`Scan`).
-/

namespace FlowScript.Parse
open FlowScript.Grammar (Rule bracketed ruleBody)
open FlowScript.Nesting (Chained Deeper OnLevel)
open FlowScript.Node (NoLess)

variable {source : List Char}

/-- Children that are light at a place. -/
def Lit (source : List Char) (start j : Nat) (cs : List Child) : Prop := ∀ c ∈ cs, c.node.Light source start j

namespace Lit

variable {start m j : Nat} {c : Child} {cs ds : List Child}

theorem nil : Lit source start j [] := List.forall_mem_nil _

theorem single (only : c.node.Light source start j) : Lit source start j [c] := List.forall_mem_singleton.2 only

theorem cons (first : c.node.Light source start j) (rest : Lit source start j cs) : Lit source start j (c :: cs) :=
  List.forall_mem_cons.2 ⟨first, rest⟩

protected theorem append (first : Lit source start j cs) (second : Lit source start j ds) :
    Lit source start j (cs ++ ds) := List.forall_mem_append.2 ⟨first, second⟩

theorem flatMap {α : Type} {f : α → List Child} {as : List α} (each : ∀ a ∈ as, Lit source start j (f a)) :
    Lit source start j (as.flatMap f) := by
  intro c mem
  obtain ⟨a, inside, mem⟩ := List.mem_flatMap.1 mem
  exact each a inside c mem

theorem less (h : Lit source start 1 cs) : Lit source start 0 cs := fun c mem => (h c mem).less (Nat.zero_le 1)

/-- Children on the level of a node. -/
theorem loose {signed : Prop} (h : Lit source start 0 cs) :
    ∀ x ∈ Entry.plain.each cs, Node.Admits source start signed x :=
  List.forall_mem_map.2 h

/-- Children in brackets of a node. -/
theorem bracketed {signed : Prop} (h : Lit source start 1 cs) :
    ∀ x ∈ Entry.bracket.each cs, Node.Admits source start signed x :=
  List.forall_mem_map.2 h

/-- A node is light if its children are, on its level. -/
theorem plain {n : Node} (h : Lit source start 0 n.children) (begins : NoLess source start n.offset)
    (entries : n.entries = Entry.plain.each n.children) : n.Light source start 0 := by
  refine Node.light_of_entries begins ?_ fun _ => ?_ <;> rw [entries]
  · exact List.forall_mem_map.2 fun _ _ => nofun
  · exact h.loose

/-- A node is light if its children are, in its brackets. -/
theorem brackets {n : Node} (h : Lit source start 1 n.children) (begins : NoLess source start n.offset)
    (entries : n.entries = Entry.bracket.each n.children) : n.Light source start 0 := by
  refine Node.light_of_entries begins ?_ fun _ => ?_ <;> rw [entries]
  · exact List.forall_mem_map.2 fun _ _ => nofun
  · exact h.bracketed

end Lit

/-! ## Parts -/

/-- The nodes of a part that stand in brackets of its own match. -/
def Part.inner (part : Part) : List Child :=
  match part.piece with
  | .body body => if part.rule = .program then [] else body.map .stmt
  | .arrowBody (.block body) => body.map .stmt
  | .args args => if part.rule = .argList then [] else args.map .item
  | .expr e => if part.rule = .indexAccess ∨ part.rule = .optionalIndex then [.expr .sequence e] else []
  | .params params => if part.rule = .arrowParams ∧ paramsEntry params = .bracket then params.map .pattern else []
  | _ => []

/-- A part in which the weight of the pass over the tokens bounds the levels that count. -/
structure Part.Light (source : List Char) (part : Part) : Prop where
  nodes : Lit source part.start.offset 0 part.nodes
  inner : Lit source part.start.offset 1 part.inner

/-- What assembly makes of a match is light. -/
def Lights (source : List Char) (site : Site) (made : Piece × List Edit) : Prop :=
  Part.Light source ⟨site, made.1, made.2⟩

namespace Part.Light

variable {part : Part}

theorem toExpr (h : part.Light source) :
    Yields part.toExpr fun e => (Node.expr e).Light source part.start.offset 0 := by
  intro e read
  cases piece : part.piece with
  | token => exact h.nodes ⟨slotOf part.rule, .expr e⟩ (by simp [Part.nodes, piece, read, Except.toOption])
  | expr e' =>
    have : part.toExpr = .ok e' := by simp [Part.toExpr, piece]
    cases this.symm.trans read
    exact h.nodes ⟨slotOf part.rule, .expr e⟩ (by simp [Part.nodes, piece])
  | _ => simp [Part.toExpr, piece, Part.misplaced] at read

theorem toPattern (h : part.Light source) :
    Yields part.toPattern fun p => (Node.pattern p).Light source part.start.offset 0 := by
  intro p read
  cases piece : part.piece with
  | token => exact h.nodes (.pattern p) (by simp [Part.nodes, piece, read, Except.toOption])
  | pattern p' =>
    have : part.toPattern = .ok p' := by simp [Part.toPattern, piece]
    cases this.symm.trans read
    exact h.nodes (.pattern p) (by simp [Part.nodes, piece])
  | _ => simp [Part.toPattern, piece, Part.misplaced] at read

theorem toStmt (h : part.Light source) (inside : part.rule ≠ .program) :
    Yields part.toStmt fun s => (Node.stmt s).Light source part.start.offset 0 := by
  intro s read
  cases piece : part.piece with
  | stmt s' =>
    simp only [Part.toStmt, piece] at read
    cases read
    exact h.nodes ⟨slotOf part.rule, .stmt s⟩ (by simp [Part.nodes, piece])
  | body body =>
    simp only [Part.toStmt, piece] at read
    cases read
    exact h.nodes (.stmt _) (by simp [Part.nodes, piece, inside])
  | _ => simp [Part.toStmt, piece, Part.misplaced] at read

/-- The statements of a block stand in its braces. -/
theorem toBody (h : part.Light source) (inside : part.rule ≠ .program) :
    Yields part.toBody fun body => Lit source part.start.offset 1 (body.map .stmt) := by
  intro body read
  unfold Part.toBody at read
  split at read <;> cases read
  rename_i piece
  simpa only [Part.inner, piece, if_neg inside] using h.inner

theorem toParams (h : part.Light source) :
    Yields part.toParams fun ps => Lit source part.start.offset 0 (ps.map .pattern) ∧
      (part.rule = .arrowParams → paramsEntry ps = .bracket → Lit source part.start.offset 1 (ps.map .pattern)) := by
  intro ps read
  unfold Part.toParams at read
  split at read <;> cases read
  rename_i piece
  obtain ⟨nodes, inner⟩ := h
  simp only [Part.nodes, Part.inner, piece] at nodes inner
  exact ⟨nodes, fun is bracket => by rwa [if_pos ⟨is, bracket⟩] at inner⟩

theorem toKey (h : part.Light source) : Yields part.toKey fun key => Lit source part.start.offset 0 key.children := by
  intro key read
  unfold Part.toKey at read
  split at read <;> cases read
  rename_i piece
  simpa only [Part.nodes, piece] using h.nodes

theorem toArgs (h : part.Light source) :
    Yields part.toArgs fun args => Lit source part.start.offset 0 (args.map .item) ∧
      (part.rule ≠ .argList → Lit source part.start.offset 1 (args.map .item)) := by
  intro args read
  unfold Part.toArgs at read
  split at read <;> cases read
  rename_i piece
  obtain ⟨nodes, inner⟩ := h
  simp only [Part.nodes, Part.inner, piece] at nodes inner
  exact ⟨nodes, fun called => by rwa [if_neg called] at inner⟩

/-- The expression of an index stands in its brackets. -/
theorem toIndex (h : part.Light source) (index : part.rule = .indexAccess ∨ part.rule = .optionalIndex) :
    Yields part.toExpr fun e => (Node.expr e).Light source part.start.offset 1 := by
  intro e read
  unfold Part.toExpr at read
  split at read <;> cases read
  case h_8 piece =>
    have inner := h.inner
    simp only [Part.inner, piece, if_pos index] at inner
    exact inner (.expr .sequence e) (List.mem_singleton_self _)
  all_goals
    rename_i is _
    rw [is] at index
    rcases index with index | index <;> cases index

theorem toDecl (h : part.Light source) :
    Yields part.toDecl fun decl => Lit source part.start.offset 0 (decl.2.map .declarator) := by
  intro decl read
  unfold Part.toDecl at read
  split at read <;> cases read
  rename_i piece
  simpa only [Part.nodes, piece] using h.nodes

theorem declarator (h : part.Light source) :
    Yields (Parse.declarator part) fun d => (Node.declarator d).Light source part.start.offset 0 := by
  intro d read
  unfold Parse.declarator at read
  split at read <;> cases read
  rename_i piece
  have nodes := h.nodes
  simp only [Part.nodes, piece] at nodes
  exact nodes (.declarator d) (List.mem_singleton_self _)

theorem patternProp (h : part.Light source) :
    Yields (Parse.patternProp part) fun prop => Lit source part.start.offset 0 prop.children := by
  intro prop read
  unfold Parse.patternProp at read
  split at read <;> cases read
  · rename_i piece
    simpa only [Part.nodes, piece] using h.nodes
  · rename_i arg span piece
    have nodes := h.nodes
    simp only [Part.nodes, piece] at nodes
    have rest := nodes (.pattern (.rest arg span)) (List.mem_singleton_self _)
    exact .single (rest.child (by rintro ⟨_, _, _, ⟨⟩⟩) (c := .pattern arg) (List.mem_singleton_self _))

theorem objectProp (h : part.Light source) :
    Yields (Parse.objectProp part) fun prop => Lit source part.start.offset 0 prop.children := by
  intro prop read
  unfold Parse.objectProp at read
  split at read <;> cases read
  · rename_i piece
    simpa only [Part.nodes, piece] using h.nodes
  · rename_i arg span piece
    have nodes := h.nodes
    simp only [Part.nodes, piece] at nodes
    have spread := nodes ⟨slotOf part.rule, .expr (.spread arg span)⟩ (List.mem_singleton_self _)
    exact .single (spread.child (by rintro ⟨_, _, _, ⟨⟩⟩) (c := .expr .assign arg) (List.mem_singleton_self _))

end Part.Light

/-! ## Parts of a match -/

/-- A statement behind a keyword that stands at a place: it hangs on the keyword, if that is one for the pass over the
    tokens. -/
def Behind (source : List Char) (start : Nat) (s : Stmt) : Prop :=
  (Node.stmt s).Light source start 0 ∧ (Node.KeywordAt source start → (Node.stmt s).Hangs source start)

/-- What the pass over the tokens finds in a match. -/
structure Scan (source : List Char) (rule : Rule) (site : Site) (parts : List Part) : Prop where
  scene : Scene source rule site parts
  light : ∀ p ∈ parts, p.Light source
  level : ∀ p ∈ parts, p.rule ∉ bracketed rule → OnLevel source site.start.offset p.start.offset
  bracket : ∀ p ∈ parts, p.rule ∈ bracketed rule → Deeper source site.start.offset p.start.offset
  keyword : ∀ p ∈ parts, p.rule ∉ bracketed rule → site.start.offset < p.start.offset →
    Node.KeywordAt source site.start.offset → Chained source site.start.offset p.start.offset
  branch : rule = .conditionalExpr → ∀ p ∈ parts.tail, Chained source site.start.offset p.start.offset
  arrow : rule = .arrowFn → ∀ p ∈ parts, p.rule = .arrowBody → Chained source site.start.offset p.start.offset

namespace Scan

variable {rule : Rule} {site : Site} {parts : List Part} {p : Part} {cs : List Child} {j : Nat}

section
variable (h : Scan source rule site parts)
include h

theorem starts (mem : p ∈ parts) : site.start.offset ≤ p.start.offset := (h.scene.contains p mem).1

/-- A part on the level of the match. -/
theorem noLess (mem : p ∈ parts) (unlisted : p.rule ∉ bracketed rule) :
    NoLess source site.start.offset p.start.offset := .of_onLevel (h.level p mem unlisted) (h.starts mem)

/-- What is light in brackets of the match. -/
theorem deep {n : Node} (mem : p ∈ parts) (listed : p.rule ∈ bracketed rule)
    (light : n.Light source p.start.offset 0) : n.Light source site.start.offset 1 :=
  light.deeper (h.bracket p mem listed) (h.starts mem)

/-- What is light in a part is light in the match. -/
theorem flat {n : Node} (mem : p ∈ parts) (light : n.Light source p.start.offset j) (le : j ≤ 1) :
    n.Light source site.start.offset j := by
  by_cases listed : p.rule ∈ bracketed rule
  · exact (h.deep mem listed (light.less (Nat.zero_le _))).less le
  · exact light.onLevel (h.level p mem listed) (h.starts mem)

theorem lit (mem : p ∈ parts) (light : Lit source p.start.offset j cs) (le : j ≤ 1) :
    Lit source site.start.offset j cs := fun c inside => h.flat mem (light c inside) le

theorem litDeep (mem : p ∈ parts) (listed : p.rule ∈ bracketed rule) (light : Lit source p.start.offset 0 cs) :
    Lit source site.start.offset 1 cs := fun c inside => h.deep mem listed (light c inside)

/-- The expression of a part. -/
theorem expr (mem : p ∈ parts) : Yields p.toExpr fun e => (Node.expr e).Light source site.start.offset 0 :=
  (h.light p mem).toExpr.imp fun _ light => h.flat mem light (Nat.zero_le _)

/-- The expression of a part in brackets. -/
theorem exprDeep (mem : p ∈ parts) (listed : p.rule ∈ bracketed rule) :
    Yields p.toExpr fun e => (Node.expr e).Light source site.start.offset 1 :=
  (h.light p mem).toExpr.imp fun _ light => h.deep mem listed light

/-- An expression in brackets that may be left out. -/
theorem optionalDeep (level : Precedence) {r : Rule} (listed : r ∈ bracketed rule) :
    Yields (Parse.optional parts r Part.toExpr) fun e => Lit source site.start.offset 1 (Child.optional level e) :=
  optional_yields .nil fun _ mem is => (h.exprDeep mem (is ▸ listed)).imp fun e => .single (c := .expr level e)

/-- An expression that may be left out. -/
theorem optional (level : Precedence) {r : Rule} :
    Yields (Parse.optional parts r Part.toExpr) fun e => Lit source site.start.offset 0 (Child.optional level e) :=
  optional_yields .nil fun _ mem _ => (h.expr mem).imp fun e => .single (c := .expr level e)

/-- The statement of a part. -/
theorem stmt (mem : p ∈ parts) : Yields p.toStmt fun s => (Node.stmt s).Light source site.start.offset 0 :=
  ((h.light p mem).toStmt (h.scene.ne_program mem)).imp fun _ light => h.flat mem light (Nat.zero_le _)

/-- The statement of a part that stands behind the keyword of a match. -/
theorem behind {word : Grammar.Keyword} {rest : Grammar.Body} (shape : ruleBody rule = .seq (Grammar.kw word) rest)
    (mem : p ∈ parts) (other : p.rule ≠ .keyword word) (unlisted : p.rule ∉ bracketed rule) :
    Yields p.toStmt (Behind source site.start.offset) := by
  have later : site.start.offset < p.start.offset := by
    obtain ⟨ps, qs, rfl, first, -⟩ := (shape ▸ h.scene.inside).seq
    obtain ⟨k, rfl, -, is⟩ := first.call
    have behind : p ∈ qs := (List.mem_cons.1 mem).resolve_left fun same => other (same ▸ is)
    have taken := (h.scene.stands k (List.mem_cons_self ..)).solid (is ▸ by cases word <;> rfl)
    have after := (List.pairwise_cons.1 h.scene.apart).1 p behind
    have starts := h.starts (List.mem_cons_self .. : k ∈ [k] ++ qs)
    omega
  refine ((h.light p mem).toStmt (h.scene.ne_program mem)).imp fun s light => ⟨h.flat mem light (Nat.zero_le _), ?_⟩
  exact fun keyword => light.chained (h.keyword p mem unlisted later keyword)

/-- The statement inside another, behind its keyword. -/
theorem body {word : Grammar.Keyword} {rest : Grammar.Body} (shape : ruleBody rule = .seq (Grammar.kw word) rest)
    (unlisted : Rule.statement ∉ bracketed rule) :
    Yields (do (← the site parts .statement).toStmt) (Behind source site.start.offset) :=
  .bind the_yields fun _ ⟨mem, is⟩ => h.behind shape mem (is ▸ nofun) (is ▸ unlisted)

/-- The statements of a block. -/
theorem block (mem : p ∈ parts) : Yields p.toBody fun body => Lit source site.start.offset 1 (body.map .stmt) :=
  ((h.light p mem).toBody (h.scene.ne_program mem)).imp fun _ light => h.lit mem light (Nat.le_refl _)

/-- Statements that are read off parts one after the other. -/
theorem stmts {items : List Part} (among : ∀ p ∈ items, p ∈ parts) :
    Yields (items.mapM Part.toStmt) fun body => ∀ s ∈ body, ∃ p ∈ items, (Node.stmt s).Light source p.start.offset 0 := by
  have each : ∀ p ∈ items, Yields p.toStmt fun s => (Node.stmt s).Light source p.start.offset 0 := fun p mem =>
    (h.light p (among p mem)).toStmt (h.scene.ne_program (among p mem))
  exact (Yields.mapM each).imp fun body related s mem => exists_of_forall₂ related mem

/-- What binds. -/
theorem target : Yields (target site parts) fun q => ∃ p ∈ parts, p.isTarget = true ∧
    (Node.pattern q).Light source p.start.offset 0 := by
  unfold Parse.target
  cases found : parts.find? (·.isTarget) with
  | none => exact .error
  | some p =>
    have mem := List.mem_of_find?_eq_some found
    exact fun q read => ⟨p, mem, List.find?_some (p := Part.isTarget) found, (h.light p mem).toPattern q read⟩

/-- A default or initial value. -/
theorem initial : Yields (Parse.initial parts) fun value => Lit source site.start.offset 0 (Child.optional .assign value) :=
  h.optional .assign

end
end Scan
end FlowScript.Parse
