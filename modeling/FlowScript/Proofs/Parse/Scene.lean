import FlowScript.Proofs.Grammar.Progress
import FlowScript.Proofs.Parse.Grounded
import FlowScript.Proofs.Parse.Inside
import FlowScript.Proofs.Peg.Frame
import Mathlib.Data.List.Pairwise

/-!
# The scene of assembly

When a match is assembled, its parts are grounded and stand in it one after the other, between the signs that its rule
asks for (`Scene`). So what is read off a part stands in the match, with room for the signs beside the part, and a node
made of such children is sound.
-/

namespace FlowScript.Parse
open FlowScript.Grammar (RawText Rule ruleBody mayBeEmpty)
open FlowScript.Peg (Cursor)

/-- A match that lies in the source. -/
structure Site.Stands (source : List Char) (site : Site) : Prop where
  start : site.start.place.Within source
  stop : site.stop.place.Within source
  ordered : site.start.offset ≤ site.stop.offset
  solid : mayBeEmpty site.rule = false → site.start.offset < site.stop.offset
  reads : Text.slice? source site.start.offset site.stop.offset = some site.text
  size : site.stop.offset = site.start.offset + Text.byteLength site.text
  named : site.rule = .identifier → ∀ c ∈ site.text, Text.isBlank c = false
  complete : site.rule = .identifier → NameAt source site.start.offset site.stop.offset site.word
  raw : site.rule = .templateChunk → RawText site.stop.rest site.text
  read : site.start.Reaches site.text site.stop

/-- The bytes that a match takes. -/
def Site.length (site : Site) : Nat := site.stop.offset - site.start.offset

/-- Matches one right after the other, from one place to another. -/
def Site.Abut : Cursor → List Site → Cursor → Prop
  | c, [], d => c = d
  | c, site :: sites, d => site.start = c ∧ Abut site.stop sites d

/-- A part whose expression is read off the match between its braces, if it is a substitution. -/
def Part.Inset (source : List Char) (part : Part) : Prop :=
  part.rule = .templateSubst → ∃ t inner, SubstitutionAt source part.start part.stop t inner ∧
    Yields part.toExpr fun e => t.start.offset ≤ e.span.start.offset ∧ e.span.stop.offset ≤ t.stop.offset

/-- What surrounds the assembly of a match of a rule. -/
structure Scene (source : List Char) (rule : Rule) (site : Site) (parts : List Part) : Prop where
  is : site.rule = rule
  here : site.Stands source
  inside : Inside (ruleBody rule) parts
  stands : ∀ p ∈ parts, p.Stands source
  grounded : ∀ p ∈ parts, p.Grounded source
  contains : ∀ p ∈ parts, site.start.offset ≤ p.start.offset ∧ p.stop.offset ≤ site.stop.offset
  apart : parts.Pairwise fun p q => p.stop.offset ≤ q.start.offset
  framed : ∀ p ∈ parts, p.length + (ruleBody rule).frame mayBeEmpty ≤ site.length + 1
  inset : ∀ p ∈ parts, p.Inset source
  quoted : rule = .template → ∃ opened closed, site.start.Reaches ['\x60'] opened ∧
    Site.Abut opened (parts.map (·.toSite)) closed ∧ closed.Reaches ['\x60'] site.stop
  braced : rule = .templateSubst → ∃ t inner, SubstitutionAt source site.start site.stop t inner ∧
    ∀ p ∈ parts, p.start = t.start ∧ p.stop = t.stop

/-- The bytes that stand beside each part in every match of a rule, as far as the node made of the match needs them. -/
def beside : Rule → Nat
  | .functionDecl | .functionExpr | .objectMethod | .arrowFn => 2
  | .block | .finallyClause | .ifStmt | .forStmt | .forInOfStmt | .whileStmt | .doWhileStmt | .tryStmt | .catchClause
  | .switchStmt | .switchCase | .exportDecl | .restParam | .restPattern | .objectPattern | .arrayPattern | .awaitExpr
  | .parenExpr | .spreadElem | .template | .arrayLit | .objectLit | .newExpr => 1
  | _ => 0

theorem beside_lt_frame (rule : Rule) : beside rule = 0 ∨ beside rule < (ruleBody rule).frame mayBeEmpty := by
  cases rule with
  | keyword | operator | level => exact .inl rfl
  | _ => first | exact .inl rfl | exact .inr (by decide +kernel)

/-- Nothing contains a whole program. -/
theorem program_not_called (rule : Rule) : Rule.program ∉ (ruleBody rule).calls := by
  cases rule with
  | keyword word => nofun
  | operator op => cases op <;> decide
  | level tier => cases tier <;> decide
  | _ => decide +kernel

namespace Scene

variable {source : List Char} {rule : Rule} {site : Site} {parts : List Part} {p : Part} {cs : List Child}

section
variable (h : Scene source rule site parts)
include h

theorem ne_program (mem : p ∈ parts) : p.rule ≠ .program := by
  intro is
  exact program_not_called rule (is ▸ h.inside.called mem)

/-- What a part holds stands in the match. -/
theorem lift_all (mem : p ∈ parts) (holds : p.Holds source 0 cs) : site.Holds source 0 cs := by
  intro c inside
  obtain ⟨starts, stops⟩ := h.contains p mem
  have ordered := (h.stands p mem).ordered
  exact (holds c inside).widen starts stops (by omega)

/-- What a part holds leaves room for what stands beside each part. -/
theorem lift (mem : p ∈ parts) (holds : p.Holds source 0 cs) : site.Holds source (beside rule) cs := by
  rcases beside_lt_frame rule with none | framed
  · rw [none]
    exact h.lift_all mem holds
  · intro c inside
    obtain ⟨starts, stops⟩ := h.contains p mem
    have fits := h.framed p mem
    have ordered := (h.stands p mem).ordered
    rw [Site.length, Site.length] at fits
    refine (holds c inside).widen starts stops ?_
    omega

/-- Children that are held by one part each. -/
theorem lift_each {α : Type} {f : α → Child} {as : List α} (each : ∀ a ∈ as, ∃ p ∈ parts, p.Holds source 0 [f a]) :
    site.Holds source (beside rule) (as.map f) := by
  intro c inside
  obtain ⟨a, mem, rfl⟩ := List.mem_map.1 inside
  obtain ⟨p, memp, holds⟩ := each a mem
  exact h.lift memp holds _ (List.mem_singleton_self _)

/-- Different parts take different bytes. -/
theorem disjoint {q : Part} (memp : p ∈ parts) (memq : q ∈ parts) (ne : p.rule ≠ q.rule) :
    p.stop.offset ≤ q.start.offset ∨ q.stop.offset ≤ p.start.offset := by
  let Disjoint (p q : Part) : Prop := p.stop.offset ≤ q.start.offset ∨ q.stop.offset ≤ p.start.offset
  have symmetric : Std.Symm Disjoint := ⟨fun _ _ => Or.symm⟩
  have all : parts.Pairwise Disjoint := h.apart.imp Or.inl
  refine all.forall memp memq ?_
  rintro rfl
  exact ne rfl

/-- What a part holds leaves room for another part. -/
theorem lift_apart {q : Part} (memp : p ∈ parts) (memq : q ∈ parts)
    (apart : p.stop.offset ≤ q.start.offset ∨ q.stop.offset ≤ p.start.offset) (solid : mayBeEmpty q.rule = false)
    (holds : p.Holds source 0 cs) : site.Holds source 1 cs := by
  intro c inside
  obtain ⟨starts, stops⟩ := h.contains p memp
  obtain ⟨starts', stops'⟩ := h.contains q memq
  have ordered := (h.stands p memp).ordered
  have taken := (h.stands q memq).solid solid
  exact (holds c inside).widen starts stops (by omega)

/-- What a part holds leaves room for a part of another rule. -/
theorem lift_beside {q : Part} (memp : p ∈ parts) (memq : q ∈ parts) (ne : p.rule ≠ q.rule)
    (solid : mayBeEmpty q.rule = false) (holds : p.Holds source 0 cs) : site.Holds source 1 cs :=
  h.lift_apart memp memq (h.disjoint memp memq ne) solid holds

/-- A node made of children that the match holds, with room for its margin, is sound. -/
theorem between {n : Node} {slot : Slot} (solid : mayBeEmpty rule = false) (formed : n.Formed source)
    (admits : slot.Admits n) (span : n.span = site.span) (records : n.text? = none)
    (inOrder : ∀ body ∈ n.bodies, InOrder body)
    (holds : site.Holds source n.margin n.children) :
    Child.Between source site.start.offset site.stop.offset 0 ⟨slot, n⟩ := by
  have taken := h.here.solid (h.is ▸ solid)
  refine ⟨admits, Node.everywhere_sound ?_ ?_ ?_ records formed inOrder ?_, ?_, ?_, ?_⟩
  all_goals simp only [Node.length, span]
  · exact h.here.start
  · exact h.here.stop
  · exact taken
  · exact holds
  · exact Nat.le_refl _
  · exact Nat.le_refl _
  · exact Nat.le_refl _

end
end Scene

/-! ## Finding parts -/

section
variable {α β : Type} {site : Site} {parts : List Part} {r : Rule}

theorem the_yields : Yields (the site parts r) fun p => p ∈ parts ∧ p.rule = r := by
  unfold the
  cases found : parts.find? (·.rule = r) with
  | none => exact .error
  | some p => exact .ok ⟨List.mem_of_find?_eq_some found, by simpa using List.find?_some found⟩

/-- What is read off the part of a rule goes into the rest. -/
theorem read_yields {read : Part → Assembled α} {next : α → Assembled β} {P : α → Prop} {Q : β → Prop}
    (reads : ∀ p ∈ parts, p.rule = r → Yields (read p) P) (rest : ∀ a, P a → Yields (next a) Q) :
    Yields (the site parts r >>= fun p => read p >>= next) Q :=
  .bind the_yields fun p ⟨mem, is⟩ => .bind (reads p mem is) rest

theorem optional_yields {read : Part → Assembled α} {P : Option α → Prop} (absent : P none)
    (reads : ∀ p ∈ parts, p.rule = r → Yields (read p) fun a => P (some a)) : Yields (optional parts r read) P := by
  unfold optional
  cases found : parts.find? (·.rule = r) with
  | none => exact .ok absent
  | some p =>
    refine .map (reads p (List.mem_of_find?_eq_some found) ?_) fun _ => id
    simpa using List.find?_some found

theorem first_yields : Yields (first site parts) (· ∈ parts) := by
  unfold first
  split
  · exact .ok (List.mem_cons_self ..)
  · exact .error

end

namespace Scene

variable {source : List Char} {rule : Rule} {site : Site} {parts : List Part} {p : Part}
variable (h : Scene source rule site parts)
include h

/-- The expression of a part. -/
theorem expr (level : Precedence) (mem : p ∈ parts) {r : Rule} (is : p.rule = r)
    (implied : (slotOf r).implies (.least level) = true) :
    Yields p.toExpr fun e => site.Holds source (beside rule) [.expr level e] := by
  intro e read
  rw [← is] at implied
  exact h.lift mem (.single (((h.grounded p mem).toExpr e read).weaken implied))

/-- An expression that may be left out. -/
theorem optional (level : Precedence) {r : Rule} (implied : (slotOf r).implies (.least level) = true) :
    Yields (Parse.optional parts r Part.toExpr) fun e => site.Holds source (beside rule) (Child.optional level e) :=
  optional_yields .nil fun _ mem is => h.expr level mem is implied

/-- The condition of a statement. -/
theorem test :
    Yields (Parse.optional parts .expression Part.toExpr) fun e =>
      site.Holds source (beside rule) (Child.optional .sequence e) :=
  h.optional .sequence rfl

/-- The statement of a part. -/
theorem stmt (mem : p ∈ parts) : Yields p.toStmt fun s => site.Holds source (beside rule) [.stmt s] := by
  intro s read
  exact h.lift mem ((h.grounded p mem).toStmt (h.ne_program mem) s read)

/-- The statement inside another. -/
theorem body : Yields (do (← the site parts .statement).toStmt) fun s => site.Holds source (beside rule) [.stmt s] :=
  .bind the_yields fun _ ⟨mem, _⟩ => h.stmt mem

/-- The statements of a block. -/
theorem block (mem : p ∈ parts) :
    Yields p.toBody fun body => site.Holds source (beside rule) (body.map .stmt) ∧ InOrder body := by
  intro body read
  obtain ⟨holds, inOrder⟩ := (h.grounded p mem).toBody body read
  exact ⟨h.lift mem holds, inOrder⟩

/-- Statements that are read off parts one after the other. -/
theorem stmts {items : List Part} (among : items.Sublist parts) :
    Yields (items.mapM Part.toStmt) fun body =>
      (∀ s ∈ body, ∃ p ∈ parts, p.Holds source 0 [.stmt s]) ∧ InOrder body := by
  have reads : ∀ p ∈ items, Yields p.toStmt fun s => p.Holds source 0 [.stmt s] := fun p mem =>
    (h.grounded p (among.subset mem)).toStmt (h.ne_program (among.subset mem))
  intro body read
  have each := Yields.mapM reads body read
  refine ⟨fun s mem => ?_, ?_⟩
  · obtain ⟨p, memp, holds⟩ := exists_of_forall₂ each mem
    exact ⟨p, among.subset memp, holds⟩
  have apart := h.apart.sublist among
  clear among read reads
  induction each with
  | nil => exact .nil
  | @cons p s ps ss first rest ih =>
    obtain ⟨before, apart⟩ := List.pairwise_cons.1 apart
    have here := first _ (List.mem_singleton_self _)
    refine List.pairwise_cons.2 ⟨fun t mem => ?_, ih apart⟩
    obtain ⟨q, memq, there⟩ := exists_of_forall₂ rest mem
    have later := there _ (List.mem_singleton_self _)
    exact Nat.le_trans here.stop (Nat.le_trans (before q memq) later.start)

/-- What binds, with the part it is read off. -/
theorem target : Yields (target site parts) fun q =>
    ∃ p ∈ parts, p.isTarget = true ∧ p.Holds source 0 [.pattern q] := by
  unfold Parse.target
  cases found : parts.find? (·.isTarget) with
  | none => exact .error
  | some p =>
    have mem := List.mem_of_find?_eq_some found
    exact fun q read => ⟨p, mem, List.find?_some (p := Part.isTarget) found, (h.grounded p mem).toPattern q read⟩

/-- A default or initial value, with the part it is read off. -/
theorem initial : Yields (initial parts) fun value =>
    ∀ e, value = some e → ∃ p ∈ parts, p.rule = .assignExpr ∧ p.Holds source 0 [.expr .assign e] := by
  refine optional_yields nofun fun p mem is => ?_
  rintro e read _ ⟨⟩
  refine ⟨p, mem, is, .single (((h.grounded p mem).toExpr e read).weaken ?_)⟩
  rw [is]
  rfl

/-- The children of a default or initial value. -/
theorem value : Yields (Parse.initial parts) fun value => site.Holds source 0 (Child.optional .assign value) := by
  intro value read c mem
  obtain ⟨e, is, rfl⟩ : ∃ e, value = some e ∧ .expr .assign e = c := by simpa [Child.optional] using mem
  obtain ⟨p, inside, -, holds⟩ := h.initial value read e is
  exact h.lift_all inside holds _ (List.mem_singleton_self _)

/-- A name in a part is one in the match. -/
theorem widenName {name : String} (mem : p ∈ parts) (named : NameWithin source p.span name) :
    NameWithin source site.span name := by
  obtain ⟨starts, stops⟩ := h.contains p mem
  exact named.widen starts stops

/-- The name of an identifier among the parts. -/
theorem nameWithin (mem : p ∈ parts) (is : p.rule = .identifier) : NameWithin source site.span p.word :=
  h.widenName mem ⟨_, _, Nat.le_refl _, Nat.le_refl _, (h.stands p mem).complete is⟩

/-- The name that a function goes by. -/
theorem named : ∀ n, (parts.find? (·.rule = .identifier)).map (·.word) = some n → NameWithin source site.span n := by
  intro n is
  obtain ⟨p, found, rfl⟩ := Option.map_eq_some_iff.1 is
  exact h.nameWithin (List.mem_of_find?_eq_some found) (by simpa using List.find?_some found)

/-- The function that is read off the match, between whose parentheses and braces its children stand. -/
theorem function (solid : mayBeEmpty rule = false) (two : beside rule = 2) {name : Option String}
    (named : ∀ n, name = some n → NameWithin source site.span n) :
    Yields (function site parts name) fun f => site.Holds source 0 [.function f] := by
  unfold Parse.function
  have params : Yields (Parse.optional parts .params Part.toParams) fun params =>
      site.Holds source 2 ((params.getD []).map .pattern) :=
    optional_yields .nil fun p mem _ params read => two ▸ h.lift mem ((h.grounded p mem).toParams params read)
  refine .bind params fun params holdsParams => ?_
  refine read_yields (fun p mem _ => h.block mem) fun body ⟨holdsBody, inOrder⟩ => ?_
  rw [two] at holdsBody
  exact .ok (.single (h.between solid named trivial rfl rfl (List.forall_mem_singleton.2 inOrder)
    (holdsParams.append holdsBody)))

end Scene

/-! ## What a match stands for -/

section
variable {source : List Char} {rule : Rule} {site : Site} {parts : List Part}

/-- A piece whose nodes the match holds. -/
theorem shows_piece {piece : Piece} (nodes : site.Holds source 0 (Part.nodes ⟨site, piece, []⟩))
    (formed : Part.Formed source ⟨site, piece, []⟩) : Yields (Made.plain piece) (Shows source site) :=
  .ok ⟨nodes, formed⟩

namespace Scene

variable (h : Scene source rule site parts)
include h

/-- A statement made of what the match holds, whatever edits go with it. -/
theorem stmt_grounded {s : Stmt} (edits : List Edit) (solid : mayBeEmpty rule = false)
    (formed : (Node.stmt s).Formed source) (admits : (slotOf rule).Admits (.stmt s)) (span : s.span = site.span)
    (inOrder : ∀ body ∈ (Node.stmt s).bodies, InOrder body)
    (holds : site.Holds source (Node.stmt s).margin s.children) : Shows source site (.stmt s, edits) := by
  refine ⟨.single ?_, trivial⟩
  exact h.is ▸ h.between solid formed admits span rfl inOrder holds

/-- A statement made of what the match holds. -/
theorem shows_stmt {s : Stmt} (solid : mayBeEmpty rule = false) (formed : (Node.stmt s).Formed source)
    (admits : (slotOf rule).Admits (.stmt s)) (span : s.span = site.span)
    (inOrder : ∀ body ∈ (Node.stmt s).bodies, InOrder body)
    (holds : site.Holds source (Node.stmt s).margin s.children) :
    Yields (Made.plain (.stmt s)) (Shows source site) :=
  .ok (h.stmt_grounded [] solid formed admits span inOrder holds)

/-- An expression made of what the match holds. -/
theorem shows_expr {e : Expr} (solid : mayBeEmpty rule = false) (formed : (Node.expr e).Formed source)
    (admits : (slotOf rule).Admits (.expr e)) (span : e.span = site.span) (records : (Node.expr e).text? = none)
    (inOrder : ∀ body ∈ (Node.expr e).bodies, InOrder body)
    (holds : site.Holds source (Node.expr e).margin e.children) :
    Yields (Made.plain (.expr e)) (Shows source site) := by
  refine shows_piece (.single ?_) trivial
  exact h.is ▸ h.between solid formed admits span records inOrder holds

/-- A pattern made of what the match holds. -/
theorem shows_pattern {q : Pattern} (solid : mayBeEmpty rule = false) (formed : (Node.pattern q).Formed source)
    (span : q.span = site.span) (records : (Node.pattern q).text? = none)
    (holds : site.Holds source (Node.pattern q).margin q.children) :
    Yields (Made.plain (.pattern q)) (Shows source site) :=
  shows_piece (.single (h.between solid formed trivial span records (List.forall_mem_nil _) holds)) trivial

/-- The expression of a part stands for the match as well. -/
theorem passes_expr {p : Part} (mem : p ∈ parts) (implied : (slotOf p.rule).implies (slotOf rule) = true) :
    Yields (do Made.plain (.expr (← p.toExpr))) (Shows source site) := by
  refine .bind ((h.grounded p mem).toExpr) fun e between => ?_
  refine shows_piece (h.lift_all mem (.single ?_)) trivial
  exact h.is ▸ between.weaken implied

/-- The expression of the part of a rule stands for the match as well. -/
theorem passes_the {r : Rule} (implied : (slotOf r).implies (slotOf rule) = true) :
    Yields (do Made.plain (.expr (← (← the site parts r).toExpr))) (Shows source site) :=
  .bind the_yields fun _ ⟨mem, is⟩ => h.passes_expr mem (is ▸ implied)

end Scene
end

end FlowScript.Parse
