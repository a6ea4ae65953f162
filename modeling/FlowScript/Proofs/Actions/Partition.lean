import FlowScript.Actions.Basic
import FlowScript.Proofs.Actions.Groups

/-!
# The actions view divides a list

The actions of a list tell the places of its statements, each once and in order. What an action says depends on the
statements of its group alone, so where an action starts at a cut, the actions of the list are those of its two parts.
-/

namespace FlowScript

namespace Explainer

variable (x : Explainer)

theorem action_shift (kind : ActionKind) (importance : Importance) (title description : Message)
    (names : Option (List String)) (places : List Nat) (details : List String) (offset : Nat) :
    (x.action kind importance title description names (places.map (offset + ·)) details).value =
      (x.action kind importance title description names places details).value.shift offset := by
  cases details <;> rfl

@[simp] theorem statements_action (kind : ActionKind) (importance : Importance) (title description : Message)
    (names : Option (List String)) (places : List Nat) (details : List String) :
    (x.action kind importance title description names places details).value.statements = places := by
  cases details <;> rfl

/-- The action of a group that stands further on is the same but for its places. -/
theorem actionOf_shift (offset place : Nat) (g : ActionGroup) :
    (x.actionOf (offset + place) g).value = (x.actionOf place g).value.shift offset := by
  rw [actionOf, ← List.map_add_range']
  unfold actionOf
  cases g.form with
  | computation name => cases name <;> exact action_shift ..
  | _ => exact action_shift ..

@[simp] theorem statements_actionOf (place : Nat) (g : ActionGroup) :
    (x.actionOf place g).value.statements = List.range' place g.statements.length := by
  unfold actionOf
  cases g.form with
  | computation name => cases name <;> exact statements_action ..
  | _ => exact statements_action ..

theorem actionsFrom_shift (offset place : Nat) (gs : List ActionGroup) :
    (x.actionsFrom (offset + place) gs).value = (x.actionsFrom place gs).value.map (Action.shift offset) := by
  induction gs generalizing place with
  | nil => rfl
  | cons g gs ih =>
    simp only [actionsFrom, Worded.value_bind, Worded.value_pure, List.map_cons]
    rw [actionOf_shift, Nat.add_assoc, ih]

theorem actionsFrom_append (place : Nat) (gs hs : List ActionGroup) :
    (x.actionsFrom place (gs ++ hs)).value =
      (x.actionsFrom place gs).value ++
        (x.actionsFrom (place + (gs.flatMap ActionGroup.statements).length) hs).value := by
  induction gs generalizing place with
  | nil => rfl
  | cons g gs ih =>
    simp only [List.cons_append, actionsFrom, Worded.value_bind, Worded.value_pure, List.flatMap_cons,
      List.length_append]
    rw [ih, Nat.add_assoc]

/-- The actions of groups tell their places in order. -/
theorem flatMap_statements_actionsFrom (place : Nat) (gs : List ActionGroup) :
    (x.actionsFrom place gs).value.flatMap Action.statements =
      List.range' place (gs.flatMap ActionGroup.statements).length := by
  induction gs generalizing place with
  | nil => rfl
  | cons g gs ih =>
    simp only [actionsFrom, Worded.value_bind, Worded.value_pure, List.flatMap_cons, List.length_append]
    rw [ih, statements_actionOf, List.range'_append_1]

theorem statements_ne_nil {place : Nat} {gs : List ActionGroup} :
    ∀ a ∈ (x.actionsFrom place gs).value, a.statements ≠ [] := by
  induction gs generalizing place with
  | nil => simp [actionsFrom]
  | cons g gs ih =>
    intro a mem
    rcases List.mem_cons.1 mem with rfl | later
    · simp [ActionGroup.statements]
    · exact ih a later

/-- An action starts where a group starts. -/
theorem mem_starts_of_head? {place start : Nat} {gs : List ActionGroup} {a : Action}
    (mem : a ∈ (x.actionsFrom place gs).value) (head : a.statements.head? = some start) :
    start ∈ ActionGroup.starts place gs := by
  induction gs generalizing place with
  | nil => simp [actionsFrom] at mem
  | cons g gs ih =>
    rcases List.mem_cons.1 mem with rfl | later
    · have : place = start := by simpa [ActionGroup.statements, List.range'_succ] using head
      subst this
      exact List.mem_cons_self
    · exact List.mem_cons_of_mem _ (ih later)

end Explainer

/-- The places that actions tell are those of all statements, each once and in order, and every action tells some. Where
    an action starts at a cut between two parts of a list, or nothing stands behind it, the actions of the list are
    those of the first part, then those of the second with their places counted from the cut. -/
theorem actionsOf_append (options : ExplainOptions) (localizer : Localizer) :
    (∀ body : List Stmt,
      (actionsOf options localizer body).flatMap Action.statements = List.range body.length ∧
        ∀ a ∈ actionsOf options localizer body, a.statements ≠ []) ∧
      ∀ before behind : List Stmt,
        behind = [] ∨ (∃ a ∈ actionsOf options localizer (before ++ behind), a.statements.head? = some before.length) →
          actionsOf options localizer (before ++ behind) =
            actionsOf options localizer before ++
              (actionsOf options localizer behind).map (Action.shift before.length) := by
  let x : Explainer := ⟨options, localizer⟩
  have held (body : List Stmt) : (ActionGroup.ofStmts 0 body).flatMap ActionGroup.statements = body :=
    ActionGroup.flatMap_statements_ofStmts 0 body
  refine ⟨fun body => ⟨?_, ?_⟩, ?_⟩
  · have places := x.flatMap_statements_actionsFrom 0 (ActionGroup.ofStmts 0 body)
    rw [held body, ← List.range_eq_range'] at places
    exact places
  · exact x.statements_ne_nil
  · intro before behind cut
    have parts : ActionGroup.ofStmts 0 (before ++ behind) =
        ActionGroup.ofStmts 0 before ++ ActionGroup.ofStmts 0 behind := by
      refine ActionGroup.ofStmts_append (i := 0) (Nat.zero_le _) ?_
      rcases cut with none_ | ⟨a, mem, head⟩
      · exact .inl none_
      · right
        refine x.mem_starts_of_head? mem ?_
        rw [head, Nat.zero_add]
    calc actionsOf options localizer (before ++ behind)
      _ = (x.actionsFrom 0 (ActionGroup.ofStmts 0 before ++ ActionGroup.ofStmts 0 behind)).value := by rw [← parts]; rfl
      _ = actionsOf options localizer before ++
            (x.actionsFrom (before.length + 0) (ActionGroup.ofStmts 0 behind)).value := by
          rw [x.actionsFrom_append, held before, Nat.add_comm]; rfl
      _ = _ := by rw [x.actionsFrom_shift]; rfl

/-- A declaration that looks ahead at a statement with its name, and the statement: `const n = m; n;`. -/
private def namedTwice : Stmt × Stmt :=
  (.varDecl .const [.mk (.ident "n" .none) (some (.ident "m" .none)) .none] .none, .expr (.ident "n" .none) .none)

/-- The look ahead is in vain, as neither statement has a keyword, so a list can be cut between the two. -/
theorem actionsOf_append_namedTwice :
    (∃ a ∈ actionsOf .standard .echo ([namedTwice.1] ++ [namedTwice.2]), a.statements.head? = some 1) ∧
      actionsOf .standard .echo [namedTwice.1, namedTwice.2] =
        actionsOf .standard .echo [namedTwice.1] ++ (actionsOf .standard .echo [namedTwice.2]).map (Action.shift 1) := by
  have starts : ∃ a ∈ actionsOf .standard .echo ([namedTwice.1] ++ [namedTwice.2]), a.statements.head? = some 1 := by
    decide +kernel
  exact ⟨starts, (actionsOf_append .standard .echo).2 [namedTwice.1] [namedTwice.2] (.inr starts)⟩

end FlowScript
