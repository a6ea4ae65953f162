import FlowScript.Proofs.Diagnostics.Nests
import Mathlib.Logic.ExistsUnique

/-!
# How deep statements nest

The way down to a statement names, for every list on it, which of the lists at hand this is and which of its statements
is meant: the first step is into the script, each further step into a list inside the statement before. What lies inside a
statement has a longer way that begins with the way to it, and the order of ways is the order of reading. The rule for
nesting reports the statements whose ways take one step too many. They lie beside each other, and whatever nests deeper
lies inside exactly one of them.
-/

namespace FlowScript

/-- A statement with the way to it. -/
structure Spot where
  way : List (Nat × Nat)
  stmt : Stmt

/-- A step leads from some lists to a statement of one of them. -/
def Enters (lists : List (List Stmt)) (step : Nat × Nat) (s : Stmt) : Prop :=
  ∃ list, lists[step.1]? = some list ∧ list[step.2]? = some s

/-- A way leads from some lists to a statement: one step to a statement of theirs, then on into the lists inside it. -/
inductive Leads : List (List Stmt) → List (Nat × Nat) → Stmt → Prop
  | here {lists : List (List Stmt)} {step : Nat × Nat} {s : Stmt} : Enters lists step s → Leads lists [step] s
  | inside {lists : List (List Stmt)} {step : Nat × Nat} {way : List (Nat × Nat)} {s t : Stmt} :
    Enters lists step s → Leads s.nestedBodies way t → Leads lists (step :: way) t

namespace Spot

/-- The way leads from the script to the statement. -/
def StandsIn (p : Spot) (body : List Stmt) : Prop := Leads [body] p.way p.stmt

/-- How often the way goes into a list inside a statement. -/
def depth (p : Spot) : Nat := p.way.length - 1

/-- Comes first in reading order, in which a statement comes before what is inside it. -/
def Before (p q : Spot) : Prop := List.Lex (Prod.Lex (· < ·) (· < ·)) p.way q.way

/-- Is the same statement or has it inside. -/
def Holds (p q : Spot) : Prop := p.way <+: q.way

/-- The warning that a statement nests deeper than a limit. -/
def warning (limit : Nat) (p : Spot) : Diagnostic :=
  ⟨p.stmt.span, "Nesting depth " ++ toString p.depth ++ " exceeds the maximum of " ++ toString limit, .warning,
    .nestingDepth⟩

/-- The spot behind a further first step. -/
def behind (step : Nat × Nat) (p : Spot) : Spot := ⟨step :: p.way, p.stmt⟩

end Spot

/-! ## Ways -/

section
variable {lists : List (List Stmt)} {step : Nat × Nat} {way : List (Nat × Nat)} {s t : Stmt}

theorem Enters.unique (hs : Enters lists step s) (ht : Enters lists step t) : s = t := by
  obtain ⟨list, here, mem⟩ := hs
  obtain ⟨list', here', mem'⟩ := ht
  obtain rfl : list = list' := Option.some.inj (here.symm.trans here')
  exact Option.some.inj (mem.symm.trans mem')

namespace Leads

theorem ne_nil (leads : Leads lists way s) : way ≠ [] := by
  cases leads <;> exact List.cons_ne_nil _ _

theorem unique (hs : Leads lists way s) (ht : Leads lists way t) : s = t := by
  induction hs with
  | here entered =>
    cases ht with
    | here entered' => exact entered.unique entered'
    | inside _ leads => exact absurd rfl leads.ne_nil
  | inside entered leads ih =>
    cases ht with
    | here => exact absurd rfl leads.ne_nil
    | inside entered' leads' =>
      obtain rfl := entered.unique entered'
      exact ih leads'

/-- The beginning of a way leads to a statement too. -/
theorem exists_take (leads : Leads lists way t) {n : Nat} (short : n < way.length) :
    ∃ s, Leads lists (way.take (n + 1)) s := by
  induction leads generalizing n with
  | @here lists step s entered =>
    obtain rfl : n = 0 := by simpa using short
    exact ⟨s, .here entered⟩
  | @inside lists step way s t entered leads ih =>
    cases n with
    | zero => exact ⟨s, .here entered⟩
    | succ n =>
      obtain ⟨u, leads'⟩ := ih (Nat.lt_of_succ_lt_succ short)
      exact ⟨u, .inside entered leads'⟩

end Leads
end

/-! ## The statements at a depth -/

/-- The statements of some lists, each with the step to it. -/
def stmtsEntered (lists : List (List Stmt)) : List ((Nat × Nat) × Stmt) :=
  lists.zipIdx.flatMap fun (list, k) => list.zipIdx.map fun (s, i) => ((k, i), s)

theorem mem_stmtsEntered {lists : List (List Stmt)} {step : Nat × Nat} {s : Stmt} :
    (step, s) ∈ stmtsEntered lists ↔ Enters lists step s := by
  constructor
  · intro mem
    obtain ⟨⟨list, k⟩, here, mem⟩ := List.mem_flatMap.1 mem
    obtain ⟨⟨t, i⟩, inside, same⟩ := List.mem_map.1 mem
    cases same
    exact ⟨list, List.mk_mem_zipIdx_iff_getElem?.1 here, List.mk_mem_zipIdx_iff_getElem?.1 inside⟩
  · rintro ⟨list, here, inside⟩
    refine List.mem_flatMap.2 ⟨(list, step.1), List.mk_mem_zipIdx_iff_getElem?.2 here, ?_⟩
    exact List.mem_map.2 ⟨(s, step.2), List.mk_mem_zipIdx_iff_getElem?.2 inside, rfl⟩

theorem pairwise_zipIdx {α : Type} (l : List α) : l.zipIdx.Pairwise fun a b => a.2 < b.2 := by
  rw [← List.pairwise_map (f := Prod.snd), List.zipIdx_map_snd]
  exact List.pairwise_lt_range'

theorem pairwise_stmtsEntered (lists : List (List Stmt)) :
    (stmtsEntered lists).Pairwise fun a b => Prod.Lex (· < ·) (· < ·) a.1 b.1 := by
  refine List.pairwise_flatMap.2 ⟨?_, ?_⟩
  · rintro ⟨list, k⟩ -
    exact (pairwise_zipIdx list).map _ fun a b first => .right k first
  · refine (pairwise_zipIdx lists).imp ?_
    rintro ⟨list, k⟩ ⟨list', k'⟩ first x hx y hy
    obtain ⟨a, -, rfl⟩ := List.mem_map.1 hx
    obtain ⟨b, -, rfl⟩ := List.mem_map.1 hy
    exact .left _ _ first

theorem map_snd_stmtsEntered (lists : List (List Stmt)) : (stmtsEntered lists).map Prod.snd = lists.flatten := by
  have listed (list : List Stmt) : list.zipIdx.map (fun e => e.1) = list := List.zipIdx_map_fst 0 list
  rw [stmtsEntered, List.map_flatMap]
  simp only [List.map_map, Function.comp_def, listed]
  rw [List.flatMap_def, List.zipIdx_map_fst]

/-- The spots in some lists whose ways take a number of steps more than the first. -/
def spotsAt : Nat → List (List Stmt) → List Spot
  | 0, lists => (stmtsEntered lists).map fun (step, s) => ⟨[step], s⟩
  | n + 1, lists => (stmtsEntered lists).flatMap fun (step, s) => (spotsAt n s.nestedBodies).map (Spot.behind step)

theorem mem_spotsAt {n : Nat} {lists : List (List Stmt)} {p : Spot} :
    p ∈ spotsAt n lists ↔ Leads lists p.way p.stmt ∧ p.way.length = n + 1 := by
  induction n generalizing lists p with
  | zero =>
    constructor
    · intro mem
      obtain ⟨⟨step, s⟩, here, rfl⟩ := List.mem_map.1 mem
      exact ⟨.here (mem_stmtsEntered.1 here), rfl⟩
    · rintro ⟨leads, one⟩
      obtain ⟨way, s⟩ := p
      cases leads with
      | here entered => exact List.mem_map.2 ⟨(_, s), mem_stmtsEntered.2 entered, rfl⟩
      | inside _ leads => exact absurd (List.length_eq_zero_iff.1 (Nat.succ.inj one)) leads.ne_nil
  | succ n ih =>
    constructor
    · intro mem
      obtain ⟨⟨step, s⟩, here, mem⟩ := List.mem_flatMap.1 mem
      obtain ⟨q, inside, rfl⟩ := List.mem_map.1 mem
      obtain ⟨leads, length⟩ := ih.1 inside
      exact ⟨.inside (mem_stmtsEntered.1 here) leads, congrArg Nat.succ length⟩
    · rintro ⟨leads, length⟩
      obtain ⟨way, t⟩ := p
      cases leads with
      | here => cases length
      | @inside _ step way s _ entered leads =>
        refine List.mem_flatMap.2 ⟨(step, s), mem_stmtsEntered.2 entered, ?_⟩
        exact List.mem_map.2 ⟨⟨way, t⟩, ih.2 ⟨leads, Nat.succ.inj length⟩, rfl⟩

theorem pairwise_spotsAt (n : Nat) (lists : List (List Stmt)) : (spotsAt n lists).Pairwise Spot.Before := by
  induction n generalizing lists with
  | zero => exact (pairwise_stmtsEntered lists).map _ fun a b first => .rel first
  | succ n ih =>
    refine List.pairwise_flatMap.2 ⟨?_, ?_⟩
    · rintro ⟨step, s⟩ -
      exact (ih s.nestedBodies).map _ fun p q first => .cons first
    · refine (pairwise_stmtsEntered lists).imp ?_
      rintro ⟨step, s⟩ ⟨step', s'⟩ first x hx y hy
      obtain ⟨p, -, rfl⟩ := List.mem_map.1 hx
      obtain ⟨q, -, rfl⟩ := List.mem_map.1 hy
      exact .rel first

namespace Nest

theorem beyondInBodies_eq (n : Nat) (bodies : List (List Nest)) :
    beyondInBodies n bodies = bodies.flatMap (beyond n) := by
  induction bodies with
  | nil => rw [beyondInBodies, List.flatMap_nil]
  | cons b bs ih => rw [beyondInBodies, ih, List.flatMap_cons]

theorem beyond_zero (body : List Stmt) : beyond 0 (ofStmts body) = body.flatMap fun s => s.nestedBodies.flatten := by
  induction body with
  | nil => rw [ofStmts, beyond, List.flatMap_nil]
  | cons s ss ih =>
    rw [ofStmts, ofStmt_eq, beyond, ih, List.flatMap_cons, List.flatMap_map]
    simp only [map_stmt_ofStmts, List.flatMap_id']

theorem beyond_succ (n : Nat) (body : List Stmt) :
    beyond (n + 1) (ofStmts body) =
      body.flatMap fun s => s.nestedBodies.flatMap fun inner => beyond n (ofStmts inner) := by
  induction body with
  | nil => rw [ofStmts, beyond, List.flatMap_nil]
  | cons s ss ih => rw [ofStmts, ofStmt_eq, beyond, ih, beyondInBodies_eq, List.flatMap_map, List.flatMap_cons]

end Nest

theorem map_stmt_spotsAt_zero (lists : List (List Stmt)) : (spotsAt 0 lists).map Spot.stmt = lists.flatten := by
  rw [spotsAt, List.map_map, ← map_snd_stmtsEntered]
  rfl

/-- Going on behind a limit comes to the statements at the depth behind it. -/
theorem map_stmt_spotsAt_succ (n : Nat) (lists : List (List Stmt)) :
    (spotsAt (n + 1) lists).map Spot.stmt = lists.flatMap fun body => Nest.beyond n (Nest.ofStmts body) := by
  have below (n : Nat) (lists : List (List Stmt)) : (spotsAt (n + 1) lists).map Spot.stmt =
      lists.flatMap (List.flatMap fun s => (spotsAt n s.nestedBodies).map Spot.stmt) := by
    rw [spotsAt, List.map_flatMap, ← List.flatMap_assoc, List.flatMap_id', ← map_snd_stmtsEntered, List.flatMap_map]
    simp only [List.map_map]
    rfl
  induction n generalizing lists with
  | zero => simp only [below 0, map_stmt_spotsAt_zero, Nest.beyond_zero]
  | succ n ih => simp only [below (n + 1), ih, Nest.beyond_succ]

namespace Spot

variable {body : List Stmt} {p q : Spot}

theorem mem_spotsAt_iff {n : Nat} : p ∈ spotsAt n [body] ↔ p.StandsIn body ∧ p.depth = n := by
  rw [mem_spotsAt, StandsIn, depth]
  refine and_congr_right fun leads => ?_
  have := List.length_pos_of_ne_nil leads.ne_nil
  omega

/-- Two statements of which none lies inside another are the same if one holds the other. -/
theorem eq_of_holds (hp : p.StandsIn body) (hq : q.StandsIn body) (level : p.depth = q.depth) (holds : p.Holds q) :
    p = q := by
  have := List.length_pos_of_ne_nil hp.ne_nil
  have := List.length_pos_of_ne_nil hq.ne_nil
  obtain ⟨way, s⟩ := p
  obtain ⟨way', t⟩ := q
  obtain rfl : way = way' := holds.eq_of_length (by simp only [depth] at *; omega)
  exact congrArg _ (hp.unique hq)

/-- A statement lies inside exactly one of those at a depth above it. -/
theorem existsUnique_holds (stands : p.StandsIn body) {n : Nat} (deep : n ≤ p.depth) :
    ∃! q : Spot, (q.StandsIn body ∧ q.depth = n) ∧ q.Holds p := by
  have := List.length_pos_of_ne_nil stands.ne_nil
  have short : n < p.way.length := by
    simp only [depth] at deep
    omega
  obtain ⟨s, leads⟩ := stands.exists_take short
  have level : (p.way.take (n + 1)).length - 1 = n := by
    rw [List.length_take]
    omega
  refine ⟨⟨p.way.take (n + 1), s⟩, ⟨⟨leads, level⟩, List.take_prefix _ _⟩, ?_⟩
  rintro q ⟨⟨stands', level'⟩, holds⟩
  refine eq_of_holds stands' leads (level'.trans level.symm) ?_
  have := List.length_pos_of_ne_nil stands'.ne_nil
  rw [Holds, List.prefix_take_iff]
  exact ⟨holds, by simp only [depth] at level'; omega⟩

end Spot

/-- The rule reports the statements just behind the limit. -/
theorem LintRule.deepStmts_eq (limit : Nat) (body : List Stmt) :
    deepStmts limit (Nest.ofStmts body) = (spotsAt (limit + 1) [body]).map (Spot.warning limit) := by
  have beyond : Nest.beyond limit (Nest.ofStmts body) = (spotsAt (limit + 1) [body]).map Spot.stmt := by
    rw [map_stmt_spotsAt_succ, List.flatMap_singleton]
  rw [deepStmts, beyond, List.map_map]
  refine List.map_congr_left fun p mem => ?_
  rw [Function.comp_apply, Spot.warning, (Spot.mem_spotsAt_iff.1 mem).2]

/-! ## The order of diagnostics -/

namespace Diagnostic

theorem le_iff {a b : Diagnostic} : le a b = true ↔
    a.span.start.offset < b.span.start.offset ∨
      a.span.start.offset = b.span.start.offset ∧ a.rule.id ≤ b.rule.id := by
  simp [le]

theorem le_total (a b : Diagnostic) : (le a b || le b a) = true := by
  rw [Bool.or_eq_true, le_iff, le_iff]
  rcases Nat.lt_trichotomy a.span.start.offset b.span.start.offset with first | same | second
  · exact .inl (.inl first)
  · exact (String.le_total a.rule.id b.rule.id).imp (fun le => .inr ⟨same, le⟩) fun le => .inr ⟨same.symm, le⟩
  · exact .inr (.inl second)

theorem le_trans (a b c : Diagnostic) (hab : le a b = true) (hbc : le b c = true) : le a c = true := by
  rw [le_iff] at *
  rcases hab with first | ⟨same, le⟩
  · exact .inl (by omega)
  · rcases hbc with first | ⟨same', le'⟩
    · exact .inl (by omega)
    · exact .inr ⟨same.trans same', String.le_trans le le'⟩

end Diagnostic

/-- The rule for nesting reports the statements at the depth behind its limit, each once and in reading order: none of them
    lies inside another, and whatever nests deeper than the limit is one of them or lies inside exactly one. The
    diagnostics of a script are those of the three rules, ordered by where they start and then by rule; the order in which
    they are found breaks ties. -/
theorem nestingDepth_reports_frontier (body : List Stmt) :
    (∀ limit, ∃ found : List Spot,
      LintRule.deepStmts limit (Nest.ofStmts body) = found.map (Spot.warning limit) ∧
      found.Pairwise Spot.Before ∧
      (∀ p, p ∈ found ↔ p.StandsIn body ∧ p.depth = limit + 1) ∧
      (∀ p ∈ found, ∀ q ∈ found, p.Holds q → p = q) ∧
      ∀ p : Spot, p.StandsIn body → limit < p.depth → ∃! q : Spot, q ∈ found ∧ q.Holds p) ∧
    let all := LintRule.emptyConditions (Nest.ofStmts body) ++ LintRule.deadCode (Nest.ofStmts body) ++
      LintRule.deepStmts LintRule.comfortableDepth (Nest.ofStmts body)
    (diagnose body).Perm all ∧
    (diagnose body).Pairwise (fun a b => a.span.start.offset < b.span.start.offset ∨
      a.span.start.offset = b.span.start.offset ∧ a.rule.id ≤ b.rule.id) ∧
    ∀ a b, [a, b].Sublist all → a.span.start.offset = b.span.start.offset → a.rule = b.rule →
      [a, b].Sublist (diagnose body) := by
  constructor
  · intro limit
    refine ⟨spotsAt (limit + 1) [body], LintRule.deepStmts_eq limit body, pairwise_spotsAt _ _,
      fun p => Spot.mem_spotsAt_iff, ?_, ?_⟩
    · intro p hp q hq
      obtain ⟨stands, level⟩ := Spot.mem_spotsAt_iff.1 hp
      obtain ⟨stands', level'⟩ := Spot.mem_spotsAt_iff.1 hq
      exact Spot.eq_of_holds stands stands' (level.trans level'.symm)
    · intro p stands deep
      simp only [Spot.mem_spotsAt_iff]
      exact Spot.existsUnique_holds stands deep
  · intro all
    have sorted : diagnose body = all.mergeSort Diagnostic.le := by
      rw [diagnose]
      simp [all, LintRule.all, LintRule.check]
    rw [sorted]
    refine ⟨List.mergeSort_perm _ _, ?_, ?_⟩
    · exact (List.pairwise_mergeSort Diagnostic.le_trans Diagnostic.le_total all).imp Diagnostic.le_iff.1
    · intro a b found start rule
      have ordered : Diagnostic.le a b = true := Diagnostic.le_iff.2 (.inr ⟨start, rule ▸ String.le_refl a.rule.id⟩)
      exact List.pair_sublist_mergeSort Diagnostic.le_trans Diagnostic.le_total ordered found

/-- Two loops without a condition in a block, all without a place in a source: `{ while () ; do ; while (); }`. -/
private def endlessLoops : Stmt := .block [.while none (.empty .none) .none, .doWhile (.empty .none) none .none] .none

/-- With no nesting allowed both loops are reported, and the body of the second lies inside exactly one of them. The errors
    for the missing conditions start at one place and stay in order. -/
theorem nestingDepth_reports_frontier_loops :
    (∃ found : List Spot, LintRule.deepStmts 0 (Nest.ofStmts [endlessLoops]) = found.map (Spot.warning 0) ∧
      found.length = 2 ∧ Spot.StandsIn ⟨[(0, 0), (0, 1), (0, 0)], .empty .none⟩ [endlessLoops] ∧
      ∃! q : Spot, q ∈ found ∧ q.Holds ⟨[(0, 0), (0, 1), (0, 0)], .empty .none⟩) ∧
    List.Sublist [⟨.none, "\x60while\x60 has an empty condition", .error, .missingCondition⟩,
      ⟨.none, "\x60do...while\x60 has an empty condition", .error, .missingCondition⟩] (diagnose [endlessLoops]) := by
  obtain ⟨deep, -, -, ties⟩ := nestingDepth_reports_frontier [endlessLoops]
  constructor
  · obtain ⟨found, reported, -, -, -, cover⟩ := deep 0
    have two : (LintRule.deepStmts 0 (Nest.ofStmts [endlessLoops])).length = 2 := by
      simp [LintRule.deepStmts, Nest.beyond_zero, endlessLoops, Stmt.nestedBodies]
    have stands : Spot.StandsIn ⟨[(0, 0), (0, 1), (0, 0)], .empty .none⟩ [endlessLoops] :=
      .inside ⟨_, rfl, rfl⟩ (.inside ⟨_, rfl, rfl⟩ (.here ⟨_, rfl, rfl⟩))
    rw [reported, List.length_map] at two
    exact ⟨found, reported, two, stands, cover _ stands (by decide)⟩
  · have missing : LintRule.emptyConditions (Nest.ofStmts [endlessLoops]) =
        [⟨.none, "\x60while\x60 has an empty condition", .error, .missingCondition⟩,
          ⟨.none, "\x60do...while\x60 has an empty condition", .error, .missingCondition⟩] := by
      simp [LintRule.emptyConditions, LintRule.missingIn?, Nest.stmts_ofStmts, statementsIn_eq, statementsOf_eq,
        endlessLoops, Stmt.nestedBodies, Stmt.sections, Stmt.asBody, Stmt.span]
    refine ties _ _ ?_ rfl rfl
    rw [List.append_assoc, missing]
    exact List.sublist_append_left _ _

end FlowScript
