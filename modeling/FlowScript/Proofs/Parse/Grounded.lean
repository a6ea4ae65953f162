import FlowScript.Proofs.Ast.Sound
import FlowScript.Proofs.Parse.Role

/-!
# The nodes of a part

A part is grounded when the nodes that it stands for are sound and lie in its match. Each reader answers with nodes of
the part, and so does what assembly makes of them (`Yields`).
-/

namespace FlowScript.Parse
open FlowScript.Grammar (Rule)

/-! ## Nodes of parts -/

/-- The slot that what a match of the rule stands for is fit for. -/
def slotOf : Rule → Slot
  | .expression | .forTest | .forUpdate | .caseTest | .templateSubst | .indexAccess | .optionalIndex => .least .sequence
  | .assignExpr | .arrowFn | .computedKey => .least .assign
  | .conditionalExpr => .least .conditional
  | .level tier => .least tier.precedence
  | .exponentExpr => .least .exponent
  | .unaryExpr | .awaitExpr => .least .unary
  | .postfixExpr => .least .update
  | .callExpr => .least .call
  | .newCallee => .constructor
  | .identifier | .number | .string | .boolean | .nullLit | .thisExpr | .regex | .newExpr | .parenExpr | .functionExpr
  | .template | .taggedTemplate | .arrayLit | .objectLit => .least .primary
  | .spreadElem => .item
  | .functionDecl | .exportDefault => .default
  | _ => .other

/-- The nodes that a part may be read as, or that what it stands for is made of. -/
def Part.nodes (part : Part) : List Child :=
  match part.piece with
  | .token =>
    part.toExpr.toOption.toList.map (fun e => ⟨slotOf part.rule, .expr e⟩) ++ part.toPattern.toOption.toList.map .pattern
  | .erased | .property _ | .specifier _ | .specifiers _ => []
  | .expr e => [⟨slotOf part.rule, .expr e⟩]
  | .stmt s => [⟨slotOf part.rule, .stmt s⟩]
  | .body body => body.map .stmt ++ if part.rule = .program then [] else [.stmt (.block body part.span)]
  | .pattern p => [.pattern p]
  | .params params => params.map .pattern
  | .patternProp prop => prop.children
  | .key key => key.children
  | .objectProp prop => prop.children
  | .declarator d => [.declarator d]
  | .decl _ declarations => declarations.map .declarator
  | .args args => args.map .item
  | .catchClause clause => [⟨.other, .catchClause clause⟩]
  | .switchCase clause => [⟨.other, .switchCase clause⟩]
  | .forInit init => init.children
  | .forHead head => head.children
  | .arrowBody body => body.children

/-- What is known of the piece of a part besides its nodes: statements are in order, and a name that stands for itself
    in an object is one of the source. -/
def Part.Formed (source : List Char) (part : Part) : Prop :=
  match part.piece with
  | .body body | .arrowBody (.block body) => InOrder body
  | .objectProp (.shorthand name _) | .patternProp (.shorthand name _) => NameWithin source part.span name
  | _ => True

/-- Children that stand in a match, with room for so many bytes. -/
def Site.Holds (source : List Char) (site : Site) (room : Nat) (cs : List Child) : Prop :=
  ∀ c ∈ cs, c.Between source site.start.offset site.stop.offset room

namespace Site.Holds

variable {source : List Char} {site : Site} {room : Nat} {c : Child} {cs ds : List Child}

theorem nil : site.Holds source room [] := List.forall_mem_nil _

theorem cons (first : c.Between source site.start.offset site.stop.offset room) (rest : site.Holds source room cs) :
    site.Holds source room (c :: cs) := List.forall_mem_cons.2 ⟨first, rest⟩

theorem single (only : c.Between source site.start.offset site.stop.offset room) : site.Holds source room [c] :=
  cons only nil

protected theorem append (first : site.Holds source room cs) (second : site.Holds source room ds) :
    site.Holds source room (cs ++ ds) := List.forall_mem_append.2 ⟨first, second⟩

/-- What leaves some room leaves less. -/
theorem less {more : Nat} (h : site.Holds source more cs) (le : room ≤ more) : site.Holds source room cs :=
  fun c mem => (h c mem).widen (Nat.le_refl _) (Nat.le_refl _) (by omega)

theorem flatMap {α : Type} {f : α → List Child} {as : List α} (each : ∀ a ∈ as, site.Holds source room (f a)) :
    site.Holds source room (as.flatMap f) := by
  intro c mem
  obtain ⟨a, inside, mem⟩ := List.mem_flatMap.1 mem
  exact each a inside c mem

end Site.Holds

/-- A part whose nodes are sound and lie in its match. -/
structure Part.Grounded (source : List Char) (part : Part) : Prop where
  nodes : part.Holds source 0 part.nodes
  formed : part.Formed source

/-- What assembly makes of a match is grounded. -/
def Shows (source : List Char) (site : Site) (made : Piece × List Edit) : Prop :=
  Part.Grounded source ⟨site, made.1, made.2⟩

/-! ## Results of assembly -/

/-- If a result of assembly is there, it has a property. -/
def Yields {α : Type} (x : Assembled α) (P : α → Prop) : Prop :=
  ∀ a, x = .ok a → P a

namespace Yields

variable {α β : Type} {P : α → Prop} {Q : β → Prop} {x : Assembled α}

theorem ok {a : α} (h : P a) : Yields (.ok a) P := by
  rintro _ ⟨⟩
  exact h

theorem error {e : Misplaced} : Yields (.error e : Assembled α) P := nofun

theorem bind {f : α → Assembled β} (h : Yields x P) (next : ∀ a, P a → Yields (f a) Q) : Yields (x >>= f) Q := by
  cases x with
  | error e => nofun
  | ok a => exact next a (h a rfl)

theorem map {f : α → β} (h : Yields x P) (next : ∀ a, P a → Q (f a)) : Yields (x.map f) Q := by
  cases x with
  | error e => nofun
  | ok a => exact .ok (next a (h a rfl))

theorem imp {R : α → Prop} (h : Yields x P) (weaker : ∀ a, P a → R a) : Yields x R :=
  fun a is => weaker a (h a is)

theorem and {R : α → Prop} (h : Yields x P) (h' : Yields x R) : Yields x fun a => P a ∧ R a :=
  fun a is => ⟨h a is, h' a is⟩

theorem mapM {γ : Type} {R : γ → α → Prop} {read : γ → Assembled α} {parts : List γ}
    (each : ∀ p ∈ parts, Yields (read p) (R p)) : Yields (parts.mapM read) (List.Forall₂ R parts) := by
  induction parts with
  | nil => exact .ok .nil
  | cons p ps ih =>
    rw [List.mapM_cons]
    refine .bind (each p (List.mem_cons_self ..)) fun a first => ?_
    refine .bind (ih fun q mem => each q (List.mem_cons_of_mem _ mem)) fun as rest => ?_
    exact .ok (.cons first rest)

end Yields

/-! ## Reading grounded parts -/

namespace Part.Grounded

variable {source : List Char} {part : Part}

/-- What is known of a part is known of its piece. -/
theorem of_piece (h : part.Grounded source) {piece : Piece} (is : part.piece = piece) :
    Part.Grounded source ⟨part.toSite, piece, part.edits⟩ := by
  subst is
  exact h

theorem toExpr (h : part.Grounded source) :
    Yields part.toExpr fun e => Child.Between source part.start.offset part.stop.offset 0 ⟨slotOf part.rule, .expr e⟩ := by
  intro e read
  refine h.nodes _ ?_
  cases piece : part.piece with
  | token => simp [Part.nodes, piece, read, Except.toOption]
  | expr e' =>
    have : part.toExpr = .ok e' := by simp [Part.toExpr, piece]
    cases this.symm.trans read
    simp [Part.nodes, piece]
  | _ => simp [Part.toExpr, piece, Part.misplaced] at read

theorem toPattern (h : part.Grounded source) : Yields part.toPattern fun p => part.Holds source 0 [.pattern p] := by
  intro p read
  refine .single (h.nodes _ ?_)
  cases piece : part.piece with
  | token => simp [Part.nodes, piece, read, Except.toOption]
  | pattern p' =>
    have : part.toPattern = .ok p' := by simp [Part.toPattern, piece]
    cases this.symm.trans read
    simp [Part.nodes, piece]
  | _ => simp [Part.toPattern, piece, Part.misplaced] at read

theorem toStmt (h : part.Grounded source) (inside : part.rule ≠ .program) :
    Yields part.toStmt fun s => part.Holds source 0 [.stmt s] := by
  intro s read
  refine .single ?_
  cases piece : part.piece with
  | stmt s' =>
    simp only [Part.toStmt, piece] at read
    cases read
    have stands := h.nodes ⟨slotOf part.rule, .stmt s⟩ (by simp [Part.nodes, piece])
    exact ⟨trivial, stands.sound, stands.start, stands.stop, stands.room⟩
  | body body =>
    simp only [Part.toStmt, piece] at read
    cases read
    exact h.nodes _ (by simp [Part.nodes, piece, inside])
  | _ => simp [Part.toStmt, piece, Part.misplaced] at read

theorem toBody (h : part.Grounded source) :
    Yields part.toBody fun body => part.Holds source 0 (body.map .stmt) ∧ InOrder body := by
  intro body read
  cases piece : part.piece with
  | body body' =>
    simp only [Part.toBody, piece] at read
    cases read
    have known := h.of_piece piece
    exact ⟨fun c mem => known.nodes c (List.mem_append_left _ mem), known.formed⟩
  | _ => simp [Part.toBody, piece, Part.misplaced] at read

theorem toParams (h : part.Grounded source) : Yields part.toParams fun ps => part.Holds source 0 (ps.map .pattern) := by
  intro ps read
  unfold Part.toParams at read
  split at read <;> cases read
  rename_i piece
  exact (h.of_piece piece).nodes

theorem toKey (h : part.Grounded source) : Yields part.toKey fun key => part.Holds source 0 key.children := by
  intro key read
  unfold Part.toKey at read
  split at read <;> cases read
  rename_i piece
  exact (h.of_piece piece).nodes

theorem toArgs (h : part.Grounded source) : Yields part.toArgs fun args => part.Holds source 0 (args.map .item) := by
  intro args read
  unfold Part.toArgs at read
  split at read <;> cases read
  rename_i piece
  exact (h.of_piece piece).nodes

theorem toDecl (h : part.Grounded source) :
    Yields part.toDecl fun decl => part.Holds source 0 (decl.2.map .declarator) := by
  intro decl read
  unfold Part.toDecl at read
  split at read <;> cases read
  rename_i piece
  exact (h.of_piece piece).nodes

theorem declarator (h : part.Grounded source) :
    Yields (Parse.declarator part) fun d => part.Holds source 0 [.declarator d] := by
  intro d read
  unfold Parse.declarator at read
  split at read <;> cases read
  rename_i piece
  exact (h.of_piece piece).nodes

theorem patternProp (h : part.Grounded source) :
    Yields (Parse.patternProp part) fun prop => part.Holds source 0 prop.children ∧
      ∀ name default, prop = .shorthand name default → NameWithin source part.span name := by
  intro prop read
  unfold Parse.patternProp at read
  split at read <;> cases read
  · rename_i piece
    have known := h.of_piece piece
    refine ⟨known.nodes, ?_⟩
    rintro name default rfl
    exact known.formed
  · rename_i arg span piece
    have rest := (h.of_piece piece).nodes _ (List.mem_singleton_self _)
    exact ⟨.single (rest.child (List.mem_singleton_self _)), nofun⟩

theorem objectProp (h : part.Grounded source) :
    Yields (Parse.objectProp part) fun prop => part.Holds source 0 prop.children ∧
      ∀ name default, prop = .shorthand name default → NameWithin source part.span name := by
  intro prop read
  unfold Parse.objectProp at read
  split at read <;> cases read
  · rename_i piece
    have known := h.of_piece piece
    refine ⟨known.nodes, ?_⟩
    rintro name default rfl
    exact known.formed
  · rename_i arg span piece
    have rest := (h.of_piece piece).nodes _ (List.mem_singleton_self _)
    exact ⟨.single (rest.child (List.mem_singleton_self _)), nofun⟩

end Part.Grounded

end FlowScript.Parse
