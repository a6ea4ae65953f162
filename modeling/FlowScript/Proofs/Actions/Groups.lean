import FlowScript.Actions.Group
import Mathlib.Data.List.Infix

/-!
# Groups of a list that is cut in two

The groups of a list hold its statements, each once and in order (`flatMap_statements_ofStmts`). A declaration looks
ahead for its followers, so what stands behind a cut can draw statements before the cut into a group that goes beyond
it. Where a group starts at the cut, the groups of the list are those of its two parts (`ofStmts_append`): a declaration
that looked beyond the cut found no keyword there, and finds none in less.
-/

namespace FlowScript

theorem ActionKind.ofCode?_eq_none_of_infix {part code : String} (inside : part.toList <:+: code.toList)
    (plain : ofCode? code = none) : ofCode? part = none := by
  rw [ofCode?, Option.map_eq_none_iff, List.find?_eq_none] at plain ⊢
  intro entry mem found
  exact plain entry mem (Text.containsAny_of_infix inside found)

theorem intercalate_prefix_append {α : Type} (separator : List α) (before after : List (List α)) :
    separator.intercalate before <+: separator.intercalate (before ++ after) := by
  induction before with
  | nil => exact List.nil_prefix
  | cons text texts ih =>
    cases texts with
    | nil =>
      cases after with
      | nil => exact List.prefix_refl _
      | cons next others =>
        rw [List.singleton_append, List.intercalate_cons_cons, List.intercalate_singleton, List.append_assoc]
        exact List.prefix_append _ _
    | cons next others =>
      rw [List.cons_append, List.cons_append, List.intercalate_cons_cons, List.intercalate_cons_cons]
      exact (List.prefix_append_right_inj _).2 ih

theorem codeOf_infix_codeOf (first rest : List Stmt) : (codeOf first).toList <:+: (codeOf (first ++ rest)).toList := by
  rw [codeOf, codeOf, String.toList_intercalate, String.toList_intercalate, List.map_append, List.map_append]
  exact (intercalate_prefix_append _ _ _).isInfix

namespace ActionGroup

/-! ## One group -/

theorem single_eq (s : Stmt) : ∃ form, single s = ⟨form, s, []⟩ := by
  unfold single
  split
  · exact ⟨_, rfl⟩
  · exact ⟨_, rfl⟩

theorem joint?_of_declaredName? {s : Stmt} {name : String} (declared : s.declaredName? = some name) (rest : List Stmt) :
    joint? s rest =
      if followers name rest = [] then none
      else (ActionKind.ofCode? (codeOf (s :: followers name rest))).map fun kind =>
        ⟨.joint kind name, s, followers name rest⟩ := by
  simp only [joint?, declared]
  split
  · rename_i none_
    rw [none_, if_pos rfl]
  · rename_i some_
    rw [if_neg some_]

theorem joint?_eq {s : Stmt} {rest : List Stmt} {g : ActionGroup} (found : joint? s rest = some g) :
    ∃ form name, g = ⟨form, s, followers name rest⟩ := by
  cases declared : s.declaredName? with
  | none => simp [joint?, declared] at found
  | some name =>
    rw [joint?_of_declaredName? declared] at found
    split at found
    · simp at found
    · obtain ⟨kind, -, rfl⟩ := Option.map_eq_some_iff.1 found
      exact ⟨.joint kind name, name, rfl⟩

/-- A group takes the statement that it starts at, and perhaps some that follow at once. -/
theorem startingAt_eq (s : Stmt) (rest : List Stmt) :
    ∃ form others, startingAt s rest = ⟨form, s, others⟩ ∧ others <+: rest := by
  unfold startingAt
  split
  · exact ⟨_, _, rfl, List.nil_prefix⟩
  · split
    · exact ⟨_, _, rfl, List.nil_prefix⟩
    · cases joint : joint? s rest with
      | none =>
        obtain ⟨form, eq⟩ := single_eq s
        exact ⟨form, [], eq, List.nil_prefix⟩
      | some g =>
        obtain ⟨form, name, rfl⟩ := joint?_eq joint
        exact ⟨form, _, rfl, List.takeWhile_prefix _⟩

/-! ## A group before a cut -/

/-- The followers before a cut are the same when the list ends there, unless they go on behind it. -/
theorem followers_append (name : String) (rest beyond : List Stmt) :
    followers name (rest ++ beyond) = followers name rest ∨
      followers name rest = rest ∧ followers name (rest ++ beyond) = rest ++ followers name beyond ∧
        followers name beyond ≠ [] := by
  by_cases all : (followers name rest).length = rest.length
  · have own : followers name rest = rest := (List.takeWhile_prefix _).eq_of_length all
    have ahead : followers name (rest ++ beyond) = rest ++ followers name beyond := by
      unfold followers at all ⊢
      rw [List.takeWhile_append, if_pos all]
    by_cases more : followers name beyond = []
    · rw [ahead, more, own, List.append_nil]
      exact .inl rfl
    · exact .inr ⟨own, ahead, more⟩
  · left
    unfold followers at all ⊢
    rw [List.takeWhile_append, if_neg all]

/-- A declaration whose group does not go beyond a cut has the same group when the list ends there. -/
theorem joint?_append {s : Stmt} {rest beyond : List Stmt}
    (within : ∀ g, joint? s (rest ++ beyond) = some g → g.others.length ≤ rest.length) :
    joint? s (rest ++ beyond) = joint? s rest := by
  cases declared : s.declaredName? with
  | none => rw [joint?, joint?, declared]
  | some name =>
    rw [joint?_of_declaredName? declared, joint?_of_declaredName? declared]
    rcases followers_append name rest beyond with same | ⟨own, ahead, more⟩
    · rw [same]
    · -- The declaration looks beyond the cut. It does so in vain, or its group would go there.
      have vain : ActionKind.ofCode? (codeOf (s :: (rest ++ followers name beyond))) = none := by
        by_contra hit
        obtain ⟨kind, hit⟩ := Option.ne_none_iff_exists'.1 hit
        have group : joint? s (rest ++ beyond) = some ⟨.joint kind name, s, rest ++ followers name beyond⟩ := by
          rw [joint?_of_declaredName? declared, ahead, if_neg (by simp [more]), hit]
          rfl
        have short := within _ group
        have long : 0 < (followers name beyond).length := List.length_pos_iff.2 more
        simp only [List.length_append] at short
        omega
      have less : ActionKind.ofCode? (codeOf (s :: rest)) = none :=
        ActionKind.ofCode?_eq_none_of_infix (codeOf_infix_codeOf (s :: rest) _) vain
      rw [ahead, own, vain, less]
      simp

theorem startingAt_append {s : Stmt} {rest beyond : List Stmt}
    (within : (startingAt s (rest ++ beyond)).others.length ≤ rest.length) :
    startingAt s (rest ++ beyond) = startingAt s rest := by
  unfold startingAt at within ⊢
  split
  · rfl
  · split
    · rfl
    · rename_i other plain
      simp only [if_neg plain] at within
      rw [joint?_append]
      intro g joint
      rwa [joint] at within

/-! ## All groups -/

/-- The groups of a list hold its statements in order. -/
theorem flatMap_statements_ofStmts (taken : Nat) (body : List Stmt) :
    (ofStmts taken body).flatMap statements = body.drop taken := by
  -- The induction follows the grouping: a statement that is taken already is passed over, any other begins a group.
  induction taken, body using ofStmts.induct with
  | case1 taken => simp [ofStmts]
  | case2 taken s rest ih => rw [ofStmts, ih, List.drop_succ_cons]
  | case3 s rest group ih =>
    obtain ⟨form, others, eq, ahead⟩ := startingAt_eq s rest
    have held : others ++ rest.drop others.length = rest := (List.prefix_append_drop ahead).symm
    simp only [group, eq] at ih
    rw [ofStmts, eq, List.flatMap_cons, ih, List.drop_zero, statements, List.cons_append, held]

/-- The places where groups start that follow one another from a place on. -/
def starts (place : Nat) : List ActionGroup → List Nat
  | [] => []
  | g :: gs => place :: starts (place + g.statements.length) gs

theorem le_of_mem_starts {place start : Nat} {gs : List ActionGroup} (mem : start ∈ starts place gs) : place ≤ start := by
  induction gs generalizing place with
  | nil => simp [starts] at mem
  | cons g gs ih =>
    rcases List.mem_cons.1 mem with rfl | later
    · exact Nat.le_refl _
    · have := ih later
      omega

/-- If a group starts at the cut between two parts of a list, or nothing stands behind it, then the groups of the list
    are those of its parts. -/
theorem ofStmts_append {taken i : Nat} {before behind : List Stmt} (short : taken ≤ before.length)
    (cut : behind = [] ∨ i + before.length ∈ starts (i + taken) (ofStmts taken (before ++ behind))) :
    ofStmts taken (before ++ behind) = ofStmts taken before ++ ofStmts 0 behind := by
  -- The induction is on the part before the cut; what a group there takes does not go beyond it.
  induction before generalizing taken i with
  | nil =>
    obtain rfl : taken = 0 := by simpa using short
    simp [ofStmts]
  | cons s rest ih =>
    cases taken with
    | succ taken =>
      simp only [List.cons_append, ofStmts, List.length_cons] at cut short ⊢
      exact ih (i := i + 1) (by omega) (by simpa [Nat.add_comm, Nat.add_left_comm] using cut)
    | zero =>
      obtain ⟨form, others, eq, ahead⟩ := startingAt_eq s (rest ++ behind)
      simp only [List.cons_append, ofStmts] at cut ⊢
      have within : others.length ≤ rest.length := by
        rcases cut with rfl | cut
        · simpa using ahead.length_le
        · rcases List.mem_cons.1 cut with start | later
          · simp at start
          · have := le_of_mem_starts later
            simp [eq, statements] at this
            omega
      have same : startingAt s rest = startingAt s (rest ++ behind) := (startingAt_append (by rwa [eq])).symm
      rw [same, eq]
      refine congrArg _ (ih (i := i + 1) within ?_)
      rcases cut with none_ | cut
      · exact .inl none_
      · rw [eq] at cut
        rcases List.mem_cons.1 cut with start | later
        · simp at start
        · right
          simpa [statements, Nat.add_comm, Nat.add_left_comm] using later

end ActionGroup
end FlowScript
