import FlowScript.Proofs.Ast.Bodies

/-!
# Dead code

What stands in a list behind its first exit never runs. Function declarations count from wherever they stand, and empty
statements and declarations of types do nothing, so these may stand there; a list with anything else there has dead code.
The rule for unreachable code reports each list with dead code once, from the first statement of it to the last. In a
source that is read a list is in order, so that the report covers all its dead code.
-/

namespace FlowScript

variable {source : List Char} {body before behind : List Stmt} {s exit first last : Stmt}

/-- Statements that always leave their list. -/
def Stmt.Exits (s : Stmt) : Prop := s.kindName ∈ ["return", "throw", "break", "continue"]

/-- Statements that do nothing in their place. -/
def Stmt.Idles (s : Stmt) : Prop := s.kindName ∈ ["empty", "function", "type"]

/-- The first exit of a list, with what stands before it and behind it. -/
structure FirstExit (body before : List Stmt) (exit : Stmt) (behind : List Stmt) : Prop where
  split : body = before ++ exit :: behind
  before : ∀ s ∈ before, ¬ s.Exits
  exits : exit.Exits

/-- The first and the last dead statement behind an exit. -/
structure DeadPart (behind : List Stmt) (first last : Stmt) : Prop where
  first : ¬ first.Idles ∧ ∃ idle rest, behind = idle ++ first :: rest ∧ ∀ s ∈ idle, s.Idles
  last : ¬ last.Idles ∧ ∃ rest idle, behind = rest ++ last :: idle ∧ ∀ s ∈ idle, s.Idles

/-- Lists in which something other than an idle statement follows the first exit. -/
def HasDeadCode (body : List Stmt) : Prop :=
  ∃ before exit behind, FirstExit body before exit behind ∧ ∃ s ∈ behind, ¬ s.Idles

/-- The warning that a list has dead code. -/
def WarnsOf (body : List Stmt) (d : Diagnostic) : Prop :=
  ∃ before exit behind first last, FirstExit body before exit behind ∧ DeadPart behind first last ∧
    d = ⟨first.span.merge last.span, "Unreachable code after \x60" ++ exit.kindName ++ "\x60", .warning, .unreachableCode⟩

/-- Spans that include another one. -/
def Span.Covers (a b : Span) : Prop := a.start.offset ≤ b.start.offset ∧ b.stop.offset ≤ a.stop.offset

namespace LintRule

theorem isExit_iff : isExit s = true ↔ s.Exits := by
  cases s <;> simp [isExit, Stmt.Exits, Stmt.kindName]

theorem isExecutable_iff : isExecutable s = true ↔ ¬ s.Idles := by
  cases s <;> simp [isExecutable, Stmt.Idles, Stmt.kindName]

/-! ## Looking through a list -/

theorem afterExit?_eq_some_iff {dead : List Stmt} :
    afterExit? body = some (exit, dead) ↔
      ∃ before behind, FirstExit body before exit behind ∧ dead = behind.filter isExecutable := by
  constructor
  · intro found
    induction body with
    | nil => cases found
    | cons s ss ih =>
      rw [afterExit?] at found
      by_cases exits : isExit s = true
      · rw [if_pos exits] at found
        cases found
        exact ⟨[], ss, ⟨rfl, List.forall_mem_nil _, isExit_iff.1 exits⟩, rfl⟩
      · rw [if_neg exits] at found
        obtain ⟨before, behind, ⟨rfl, stay, last⟩, rfl⟩ := ih found
        refine ⟨s :: before, behind, ⟨rfl, ?_, last⟩, rfl⟩
        exact List.forall_mem_cons.2 ⟨fun leaves => exits (isExit_iff.2 leaves), stay⟩
  · rintro ⟨before, behind, ⟨rfl, stay, exits⟩, rfl⟩
    induction before with
    | nil => rw [List.nil_append, afterExit?, if_pos (isExit_iff.2 exits)]
    | cons s ss ih =>
      obtain ⟨first, later⟩ := List.forall_mem_cons.1 stay
      rw [List.cons_append, afterExit?, if_neg fun leaves => first (isExit_iff.1 leaves)]
      exact ih later

theorem deadPart_iff :
    DeadPart behind first last ↔
      (behind.filter isExecutable).head? = some first ∧ (behind.filter isExecutable).getLast? = some last := by
  have idles : ∀ s : Stmt, (!isExecutable s) = true ↔ s.Idles := by
    intro s
    rw [Bool.not_eq_true', ← Bool.not_eq_true, isExecutable_iff, not_not]
  have front : (behind.filter isExecutable).head? = some first ↔
      ¬ first.Idles ∧ ∃ idle rest, behind = idle ++ first :: rest ∧ ∀ s ∈ idle, s.Idles := by
    simp only [List.head?_filter, List.find?_eq_some_iff_append, isExecutable_iff, idles]
  have back : (behind.filter isExecutable).getLast? = some last ↔
      ¬ last.Idles ∧ ∃ rest idle, behind = rest ++ last :: idle ∧ ∀ s ∈ idle, s.Idles := by
    rw [List.getLast?_eq_head?_reverse, ← List.filter_reverse, List.head?_filter, List.find?_eq_some_iff_append,
      isExecutable_iff]
    simp only [idles]
    refine and_congr_right fun _ => ?_
    constructor
    · rintro ⟨idle, rest, split, all⟩
      refine ⟨rest.reverse, idle.reverse, ?_, fun s mem => all s (List.mem_reverse.1 mem)⟩
      rw [← behind.reverse_reverse, split]
      simp
    · rintro ⟨rest, idle, rfl, all⟩
      exact ⟨idle.reverse, rest.reverse, by simp, fun s mem => all s (List.mem_reverse.1 mem)⟩
  rw [front, back]
  exact ⟨fun ⟨f, l⟩ => ⟨f, l⟩, fun ⟨f, l⟩ => ⟨f, l⟩⟩

/-- Something behind the first exit is dead if it has a first and a last dead statement. -/
theorem exists_deadPart_iff : (∃ first last, DeadPart behind first last) ↔ ∃ s ∈ behind, ¬ s.Idles := by
  constructor
  · rintro ⟨first, last, ⟨runs, idle, rest, rfl, -⟩, -⟩
    exact ⟨first, List.mem_append_right _ (List.mem_cons_self ..), runs⟩
  · rintro ⟨s, mem, runs⟩
    have dead : behind.filter isExecutable ≠ [] :=
      List.ne_nil_of_mem (List.mem_filter.2 ⟨mem, isExecutable_iff.2 runs⟩)
    exact ⟨_, _, deadPart_iff.2 ⟨List.head?_eq_some_head dead, List.getLast?_eq_some_getLast dead⟩⟩

theorem unreachableIn?_eq_some_iff {d : Diagnostic} : unreachableIn? body = some d ↔ WarnsOf body d := by
  unfold unreachableIn?
  constructor
  · intro found
    split at found
    · cases found
    · next exit dead after =>
      obtain ⟨before, behind, firstExit, rfl⟩ := afterExit?_eq_some_iff.1 after
      split at found
      · next first last head tail =>
        cases found
        exact ⟨before, exit, behind, first, last, firstExit, deadPart_iff.2 ⟨head, tail⟩, rfl⟩
      · cases found
  · rintro ⟨before, exit, behind, first, last, firstExit, part, rfl⟩
    obtain ⟨head, tail⟩ := deadPart_iff.1 part
    rw [afterExit?_eq_some_iff.2 ⟨before, behind, firstExit, rfl⟩]
    simp only [head, tail]

theorem isSome_unreachableIn?_iff : (unreachableIn? body).isSome = true ↔ HasDeadCode body := by
  rw [Option.isSome_iff_exists]
  simp only [unreachableIn?_eq_some_iff]
  constructor
  · rintro ⟨d, before, exit, behind, first, last, firstExit, part, -⟩
    exact ⟨before, exit, behind, firstExit, exists_deadPart_iff.1 ⟨first, last, part⟩⟩
  · rintro ⟨before, exit, behind, firstExit, dead⟩
    obtain ⟨first, last, part⟩ := exists_deadPart_iff.2 dead
    exact ⟨_, before, exit, behind, first, last, firstExit, part, rfl⟩

end LintRule

instance : DecidablePred HasDeadCode := fun _ => decidable_of_iff _ LintRule.isSome_unreachableIn?_iff

/-- The rule reports one warning for each list with dead code, outer lists first. -/
theorem LintRule.forall₂_check_unreachableCode (body : List Stmt) :
    List.Forall₂ WarnsOf ((listsIn body).filter HasDeadCode) (unreachableCode.check (Nest.ofStmts body)) := by
  rw [check, deadCode, Nest.lists_ofStmts]
  induction listsIn body with
  | nil => exact .nil
  | cons list lists ih =>
    cases found : unreachableIn? list with
    | none =>
      have clean : ¬ HasDeadCode list := by rw [← isSome_unreachableIn?_iff, found]; simp
      rw [List.filterMap_cons_none found, List.filter_cons_of_neg (by simpa using clean)]
      exact ih
    | some d =>
      have dead : HasDeadCode list := by rw [← isSome_unreachableIn?_iff, found]; rfl
      rw [List.filterMap_cons_some found, List.filter_cons_of_pos (by simpa using dead)]
      exact .cons (unreachableIn?_eq_some_iff.1 found) ih

/-! ## Lists in order -/

/-- What stands behind an exit stands behind the first one. -/
theorem exists_firstExit (exits : exit.Exits) (before behind : List Stmt) :
    ∃ before' exit' behind', FirstExit (before ++ exit :: behind) before' exit' behind' ∧ behind ⊆ behind' := by
  induction before with
  | nil => exact ⟨[], exit, behind, ⟨rfl, List.forall_mem_nil _, exits⟩, List.Subset.refl _⟩
  | cons t ts ih =>
    by_cases leaves : t.Exits
    · exact ⟨[], t, ts ++ exit :: behind, ⟨rfl, List.forall_mem_nil _, leaves⟩, fun s mem =>
        List.mem_append_right _ (List.mem_cons_of_mem _ mem)⟩
    · obtain ⟨before', exit', behind', ⟨split, stay, exits'⟩, within⟩ := ih
      refine ⟨t :: before', exit', behind', ⟨?_, List.forall_mem_cons.2 ⟨leaves, stay⟩, exits'⟩, within⟩
      rw [List.cons_append, split, List.cons_append]

theorem Span.merge_covers (a b : Span) : (a.merge b).Covers a ∧ (a.merge b).Covers b := by
  unfold Covers merge
  constructor
  · constructor
    · dsimp only; split <;> omega
    · dsimp only; split <;> omega
  · constructor
    · dsimp only; split <;> omega
    · dsimp only; split <;> omega

namespace SoundBody

theorem sublist (sound : SoundBody source body) (within : behind.Sublist body) : SoundBody source behind :=
  ⟨fun s mem => sound.each s (within.subset mem), sound.inOrder.sublist within⟩

/-- What stands behind a statement of a sound list starts and stops later. -/
theorem later (sound : SoundBody source (before ++ first :: behind)) (mem : s ∈ behind) :
    first.span.start.offset ≤ s.span.start.offset ∧ first.span.stop.offset ≤ s.span.stop.offset := by
  have apart := (List.pairwise_cons.1 (List.pairwise_append.1 sound.inOrder).2.1).1 s mem
  have nonempty := (sound.each first (by simp)).here.placed.nonempty
  have nonempty' := (sound.each s (by simp [mem])).here.placed.nonempty
  simp only [Node.span] at nonempty nonempty'
  omega

/-- All that is dead in a sound list lies between the first such statement and the last. -/
theorem covers_of_deadPart (sound : SoundBody source behind) (part : DeadPart behind first last) (mem : s ∈ behind)
    (runs : ¬ s.Idles) : (first.span.merge last.span).Covers s.span := by
  obtain ⟨coversFirst, coversLast⟩ := Span.merge_covers first.span last.span
  have starts : first.span.start.offset ≤ s.span.start.offset := by
    obtain ⟨-, idle, rest, rfl, idles⟩ := part.first
    rcases List.mem_append.1 mem with among | among
    · exact absurd (idles s among) runs
    · rcases List.mem_cons.1 among with rfl | behindFirst
      · exact Nat.le_refl _
      · exact (sound.later behindFirst).1
  have stops : s.span.stop.offset ≤ last.span.stop.offset := by
    obtain ⟨-, rest, idle, rfl, idles⟩ := part.last
    rcases List.mem_append.1 mem with among | among
    · obtain ⟨front, between, rfl⟩ := List.append_of_mem among
      rw [List.append_assoc, List.cons_append] at sound
      exact (sound.later (by simp)).2
    · rcases List.mem_cons.1 among with rfl | behindLast
      · exact Nat.le_refl _
      · exact absurd (idles s behindLast) runs
  exact ⟨Nat.le_trans coversFirst.1 starts, Nat.le_trans stops coversLast.2⟩

/-- Whatever stands behind an exit of a sound list and does not idle is covered by the warning of the list. -/
theorem exists_warning (sound : SoundBody source body) (split : body = before ++ exit :: behind) (exits : exit.Exits)
    (mem : s ∈ behind) (runs : ¬ s.Idles) : ∃ d, LintRule.unreachableIn? body = some d ∧ d.span.Covers s.span := by
  subst split
  obtain ⟨before', exit', behind', firstExit, within⟩ := exists_firstExit exits before behind
  obtain ⟨first, last, part⟩ := LintRule.exists_deadPart_iff.2 ⟨s, within mem, runs⟩
  refine ⟨_, LintRule.unreachableIn?_eq_some_iff.2 ⟨_, _, _, _, _, firstExit, part, rfl⟩, ?_⟩
  have inner : behind'.Sublist (before ++ exit :: behind) := by
    rw [firstExit.split]
    exact (List.sublist_cons_self ..).trans (List.sublist_append_right ..)
  exact (sound.sublist inner).covers_of_deadPart part (within mem) runs

end SoundBody

/-- The rule for unreachable code reports each list with dead code once, outer lists first: it names the first exit of
    the list and covers the span from the first dead statement to the last. In the entry point of a source that is read,
    whatever stands behind an exit of its list and does not idle lies in the span of a warning. -/
theorem unreachableCode_reports_each_list :
    (∀ body, List.Forall₂ WarnsOf ((listsIn body).filter HasDeadCode)
      (LintRule.unreachableCode.check (Nest.ofStmts body))) ∧
    ∀ source w, parseWorkflow source = .ok w → ∀ list ∈ listsIn w.body, ∀ before exit behind s,
      list = before ++ exit :: behind → exit.Exits → s ∈ behind → ¬ s.Idles →
        ∃ d ∈ LintRule.unreachableCode.check (Nest.ofStmts w.body), d.span.Covers s.span := by
  refine ⟨LintRule.forall₂_check_unreachableCode, ?_⟩
  intro source w read list within before exit behind s split exits mem runs
  have sound := (soundBody_of_parse read).of_mem_listsIn within
  obtain ⟨d, found, covers⟩ := sound.exists_warning split exits mem runs
  refine ⟨d, ?_, covers⟩
  rw [LintRule.check, LintRule.deadCode, Nest.lists_ofStmts]
  exact List.mem_filterMap.2 ⟨list, within, found⟩

set_option maxRecDepth 100000 in
/-- The warning for a branch covers the call behind the return. -/
theorem unreachableCode_reports_each_list_branch :
    ∃ w, parseWorkflow "function workflow() { if (a) { return; f() } }" = .ok w ∧
      ∃ exit call, [exit, call] ∈ listsIn w.body ∧ exit.kindName = "return" ∧ call.kindName = "expression" ∧
        ∃ d ∈ LintRule.unreachableCode.check (Nest.ofStmts w.body), d.span.Covers call.span := by
  have branches : (parseWorkflow "function workflow() { if (a) { return; f() } }").toOption.map
      (fun w => w.body.flatMap fun s => s.nestedBodies.map (·.map Stmt.kindName)) =
        some [["return", "expression"]] := by decide +kernel
  obtain ⟨w, read, branches⟩ := exists_of_toOption_map branches
  have branch : ["return", "expression"] ∈ w.body.flatMap fun s => s.nestedBodies.map (·.map Stmt.kindName) := by
    simp [branches]
  obtain ⟨s, mem, branch⟩ := List.mem_flatMap.1 branch
  obtain ⟨list, inside, kinds⟩ := List.mem_map.1 branch
  have within : list ∈ listsIn w.body :=
    mem_listsIn.2 (.inr ⟨s, mem, list, inside, mem_listsIn.2 (.inl rfl)⟩)
  obtain ⟨exit, call, rfl⟩ : ∃ exit call, list = [exit, call] := by
    rw [← List.length_eq_two, ← List.length_map Stmt.kindName, kinds]
    rfl
  simp only [List.map_cons, List.map_nil, List.cons.injEq, and_true] at kinds
  obtain ⟨isReturn, isCall⟩ := kinds
  refine ⟨w, read, exit, call, within, isReturn, isCall, ?_⟩
  refine unreachableCode_reports_each_list.2 _ w read _ within [] exit [call] call rfl ?_ (List.mem_singleton_self _) ?_
  · simp [Stmt.Exits, isReturn]
  · simp [Stmt.Idles, isCall]

end FlowScript
