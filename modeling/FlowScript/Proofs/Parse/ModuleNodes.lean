import FlowScript.Proofs.Parse.Scene
import Mathlib.Data.List.ReduceOption

/-!
# The nodes of imports, exports and patterns

What assembly makes of a match of a rule of modules or patterns is grounded when its parts are.
-/

namespace FlowScript.Parse
open FlowScript.Grammar (Rule ruleBody mayBeEmpty)

variable {source : List Char} {site : Site} {parts : List Part}

/-! ## Modules -/

/-- A list of names has no nodes. -/
theorem specifiers_shows {stop : Option Nat} : Yields (specifiers site stop parts) (Shows source site) := by
  have empty (binds : Bool) (edits : List Edit) : Shows source site (.specifiers binds, edits) :=
    ⟨.nil, trivial⟩
  unfold specifiers
  dsimp only
  split
  · exact .ok (empty _ _)
  · split <;> exact .ok (empty _ _)

theorem importDecl_shows (h : Scene source .importDecl site parts) : Yields (importDecl site parts) (Shows source site) :=
  .ok (h.stmt_grounded _ rfl trivial trivial rfl (List.forall_mem_nil _) .nil)

theorem exportDecl_shows (h : Scene source .exportDecl site parts) :
    Yields (exportDecl site parts) (Shows source site) := by
  unfold exportDecl
  dsimp only
  split
  · rename_i part only
    have mem : part ∈ parts := List.mem_of_mem_filter (only ▸ List.mem_singleton_self part)
    have nodes := h.lift mem (h.grounded part mem).nodes
    split
    · exact .ok (h.stmt_grounded _ rfl trivial trivial rfl (List.forall_mem_nil _) .nil)
    · exact .ok (h.stmt_grounded _ rfl trivial trivial rfl (List.forall_mem_nil _) .nil)
    · exact .ok (h.stmt_grounded _ rfl trivial trivial rfl (List.forall_mem_nil _) .nil)
    · rename_i declaration is piece
      simp only [Part.nodes, piece, is] at nodes
      exact .ok (h.stmt_grounded _ rfl trivial trivial rfl (List.forall_mem_nil _) nodes)
    · rename_i declaration is piece
      simp only [Part.nodes, piece, is] at nodes
      exact .ok (h.stmt_grounded _ rfl trivial trivial rfl (List.forall_mem_nil _) nodes)
    · exact .error
  · exact .error

theorem exportDefault_shows (h : Scene source .exportDefault site parts) :
    Yields (exportDefault site parts) (Shows source site) := by
  unfold exportDefault
  cases found : parts.find? (!·.isKeyword .defaultWord) with
  | none => exact .error
  | some part =>
    have mem := List.mem_of_find?_eq_some found
    have other : part.rule ≠ .keyword .defaultWord := by simpa [Part.isKeyword] using List.find?_some found
    have called : part.rule = .functionDecl ∨ part.rule = .assignExpr := by
      simpa [ruleBody, Grammar.kw, Grammar.terminator, Peg.calls, Peg.ofString, other] using h.inside.called mem
    dsimp only
    split
    · rename_i declaration piece
      have between := (h.grounded part mem).nodes ⟨slotOf part.rule, .stmt declaration⟩ (by simp [Part.nodes, piece])
      rcases called with isFunction | isExpr
      · rw [isFunction] at between
        refine shows_piece (h.lift_all mem (.single ?_)) trivial
        exact h.is ▸ between
      · rw [isExpr] at between
        exact False.elim between.admits
    · refine .bind (h.grounded part mem).toExpr fun e between => ?_
      rcases called with isFunction | isExpr
      · rw [isFunction] at between
        exact False.elim between.admits
      · rw [isExpr] at between
        have stands := h.stands part mem
        have taken := stands.solid (isExpr ▸ rfl)
        have sound : (Node.stmt (.expr e part.span)).Everywhere (Node.Sound source) :=
          Node.everywhere_sound stands.start stands.stop taken rfl trivial (List.forall_mem_nil _)
            (List.forall_mem_singleton.2 (between.weaken rfl))
        have whole : Child.Between source part.start.offset part.stop.offset 0 ⟨.default, .stmt (.expr e part.span)⟩ :=
          ⟨between.admits, sound, Nat.le_refl _, Nat.le_refl _, Nat.le_refl _⟩
        refine shows_piece (h.lift_all mem (.single ?_)) trivial
        exact h.is ▸ whole

/-! ## Patterns -/

/-- A binding with its default, if it has one, which stands beside it. -/
theorem withDefault_shows {rule : Rule} (h : Scene source rule site parts) (solid : mayBeEmpty rule = false) {p : Part}
    {q : Pattern} (mem : p ∈ parts) (ne : p.rule ≠ .assignExpr) (binds : mayBeEmpty p.rule = false)
    (holds : p.Holds source 0 [.pattern q]) :
    Yields (do Made.plain (.pattern (withDefault site q (← initial parts)))) (Shows source site) := by
  refine .bind h.initial fun value beside => ?_
  cases value with
  | none => exact shows_piece (h.lift_all mem holds) trivial
  | some e =>
    obtain ⟨r, memr, is, holdsr⟩ := beside e rfl
    have left := h.lift_beside mem memr (is ▸ ne) (is ▸ rfl) holds
    have right := h.lift_beside memr mem (is ▸ ne.symm) binds holdsr
    exact h.shows_pattern solid trivial rfl rfl (left.append right)

/-- What binds takes some bytes and is no value. -/
theorem of_isTarget {p : Part} (target : p.isTarget = true) : p.rule ≠ .assignExpr ∧ mayBeEmpty p.rule = false := by
  unfold Part.isTarget at target
  split at target
  case h_4 => cases target
  all_goals
    rename_i is
    rw [is]
    exact ⟨nofun, rfl⟩

theorem param_shows (h : Scene source .param site parts) : Yields (param site parts) (Shows source site) := by
  unfold param
  cases found : parts.find? (·.rule = .restParam) with
  | none =>
    refine .bind h.target fun q ⟨p, mem, target, holds⟩ => ?_
    obtain ⟨ne, binds⟩ := of_isTarget target
    exact withDefault_shows h rfl mem ne binds holds
  | some p =>
    have mem := List.mem_of_find?_eq_some found
    have is : p.rule = .restParam := by simpa using List.find?_some found
    refine .bind (h.grounded p mem).toPattern fun q holds => ?_
    exact withDefault_shows h rfl mem (is ▸ nofun) (is ▸ rfl) holds

theorem bindingElement_shows (h : Scene source .bindingElement site parts) :
    Yields (do Made.plain (.pattern (withDefault site (← target site parts) (← initial parts)))) (Shows source site) := by
  refine .bind h.target fun q ⟨p, mem, target, holds⟩ => ?_
  obtain ⟨ne, binds⟩ := of_isTarget target
  exact withDefault_shows h rfl mem ne binds holds

theorem restBinding_shows {rule : Rule} (h : Scene source rule site parts)
    (rest : rule = .restParam ∨ rule = .restPattern) : Yields (restBinding site parts) (Shows source site) := by
  rcases rest with rfl | rfl
  all_goals
    refine .bind h.target fun q ⟨p, mem, _, holds⟩ => ?_
    exact h.shows_pattern rfl trivial rfl rfl (h.lift mem holds)

theorem patternPair_shows (h : Scene source .patternPair site parts) :
    Yields (patternPair site parts) (Shows source site) := by
  refine read_yields (fun p mem _ => (h.grounded p mem).toKey.imp fun _ => h.lift_all mem) fun key holdsKey => ?_
  refine read_yields (fun p mem _ => (h.grounded p mem).toPattern.imp fun _ => h.lift_all mem) fun q holds => ?_
  exact shows_piece (holdsKey.append holds) trivial

theorem patternShorthand_shows (h : Scene source .patternShorthand site parts) :
    Yields (do
      let name ← the site parts .identifier
      Made.plain (.patternProp (.shorthand name.word (← initial parts)))) (Shows source site) := by
  refine .bind the_yields fun name ⟨mem, is⟩ => ?_
  refine .bind h.value fun default holds => ?_
  exact shows_piece holds (h.nameWithin mem is)

theorem objectPattern_shows (h : Scene source .objectPattern site parts) :
    Yields (do Made.plain (.pattern (.object (← parts.mapM patternProp) site.span))) (Shows source site) := by
  refine .bind (.mapM fun p mem => (h.grounded p mem).patternProp) fun props read => ?_
  refine h.shows_pattern rfl (fun name default mem => ?_) rfl rfl (.flatMap fun prop mem => ?_)
  · obtain ⟨p, inside, -, named⟩ := exists_of_forall₂ read mem
    exact h.widenName inside (named name default rfl)
  · obtain ⟨p, inside, holds, -⟩ := exists_of_forall₂ read mem
    exact h.lift inside holds

/-- Elements that are no holes are read off parts. -/
theorem slots_yields {α : Type} {hole : Rule} {read : Part → Assembled α} {P : Part → α → Prop}
    (reads : ∀ p ∈ parts, p.rule ≠ hole → Yields (read p) (P p)) :
    Yields (slots hole read parts) fun elements => ∀ a ∈ elements.reduceOption, ∃ p ∈ parts, P p a := by
  have each : ∀ p ∈ parts, Yields (if p.rule = hole then .ok none else (read p).map some) fun element =>
      ∀ a, element = some a → P p a := by
    intro p mem
    split
    · exact .ok nofun
    · rename_i element
      refine .map (reads p mem element) ?_
      rintro a holds _ ⟨⟩
      exact holds
  refine .bind (.mapM each) fun elements related => ?_
  have found : ∀ some_ : List (Option α), some_ ⊆ elements → ∀ a ∈ some_.reduceOption, ∃ p ∈ parts, P p a := by
    intro some_ among a mem
    obtain ⟨p, inside, holds⟩ := exists_of_forall₂ related (among (List.reduceOption_mem_iff.1 mem))
    exact ⟨p, inside, holds a rfl⟩
  split
  · exact .ok (found _ (List.dropLast_subset _))
  · exact .ok (found _ (List.Subset.refl _))

theorem arrayPattern_shows (h : Scene source .arrayPattern site parts) :
    Yields (do Made.plain (.pattern (.array (← slots .patternHole (·.toPattern) parts) site.span)))
      (Shows source site) := by
  refine .bind (slots_yields fun p mem _ => (h.grounded p mem).toPattern) fun elements each => ?_
  exact h.shows_pattern rfl trivial rfl rfl (h.lift_each each)

theorem params_shows (h : Scene source .params site parts) :
    Yields (do Made.plain (.params (← parts.mapM Part.toPattern))) (Shows source site) := by
  refine .bind (.mapM fun p mem => (h.grounded p mem).toPattern) fun params read => ?_
  exact shows_piece (h.lift_each fun q mem => exists_of_forall₂ read mem) trivial

theorem propertyKey_shows (h : Scene source .propertyKey site parts) :
    Yields (propertyKey site parts) (Shows source site) := by
  refine .bind first_yields fun p mem => ?_
  split
  · exact shows_piece .nil trivial
  · exact shows_piece .nil trivial
  · exact shows_piece .nil trivial
  · rename_i is
    refine .bind (h.grounded p mem).toExpr fun e between => ?_
    rw [is] at between
    exact shows_piece (h.lift_all mem (.single between)) trivial
  · exact .error

end FlowScript.Parse
