import FlowScript.Steps.Step
import Mathlib.Data.List.Basic

/-!
# Ways to steps

A way names a step by its index among the steps at the top, then by its index below the step before. Going down a way is a
loop over its indices, which ends without a step as soon as one of them is out of range. The walk is a recursion over the
steps; it comes to the step of every way that leads to one, each way once, in the lexicographic order of ways.
-/

namespace FlowScript

namespace Step

variable {s t : Step} {steps : List Step} {way : List Nat}

/-! ## Going down -/

/-- The step that is reached from a step when every index says which child is next. -/
def descend (s : Step) (way : List Nat) : Option Step := way.foldlM (fun s i => s.children[i]?) s

theorem descend_nil (s : Step) : s.descend [] = some s := rfl

theorem descend_cons (s : Step) (i : Nat) (way : List Nat) :
    s.descend (i :: way) = s.children[i]?.bind (descend · way) := rfl

/-- A way begins at the top and goes down from there. -/
theorem at?_cons (steps : List Step) (i : Nat) (way : List Nat) :
    at? steps (i :: way) = steps[i]?.bind (descend · way) := by
  induction way generalizing steps i with
  | nil => cases here : steps[i]? <;> simp [at?, here, descend_nil]
  | cons j way ih =>
    rw [at?]
    cases steps[i]? with
    | none => rfl
    | some s => exact ih s.children j

/-- An index of a way is out of range: at the top, or among the children of a step that the indices before it lead to. -/
inductive Strays : List Step → List Nat → Prop
  | here {steps : List Step} {i : Nat} {way : List Nat} : steps.length ≤ i → Strays steps (i :: way)
  | inside {steps : List Step} {i : Nat} {way : List Nat} {s : Step} :
    steps[i]? = some s → Strays s.children way → Strays steps (i :: way)

theorem descend_eq_none_iff : s.descend way = none ↔ Strays s.children way := by
  induction way generalizing s with
  | nil =>
    rw [descend_nil]
    exact ⟨nofun, nofun⟩
  | cons i way ih =>
    rw [descend_cons, Option.bind_eq_none_iff]
    constructor
    · intro lost
      cases here : s.children[i]? with
      | none => exact .here (List.getElem?_eq_none_iff.1 here)
      | some t => exact .inside here (ih.1 (lost t here))
    · rintro (beyond | ⟨here, strays⟩) t found
      · rw [List.getElem?_eq_none beyond] at found
        cases found
      · obtain rfl := Option.some.inj (here.symm.trans found)
        exact ih.2 strays

/-- Only the empty way and the ways with an index out of range lead to no step. -/
theorem at?_eq_none_iff : at? steps way = none ↔ way = [] ∨ Strays steps way := by
  cases way with
  | nil => exact ⟨fun _ => .inl rfl, fun _ => by rw [at?]⟩
  | cons i way =>
    -- the steps at the top are the children of a step like any others
    have going : at? steps (i :: way) = (Step.mk default steps).descend (i :: way) := by
      rw [at?_cons, descend_cons]
      rfl
    rw [going, descend_eq_none_iff]
    simp [children]

/-! ## The walk with its ways -/

mutual

/-- A step and everything below it in the order of the walk, each with the way to it from the step. -/
def visits : Step → List (List Nat × Step)
  | mk label children => ([], mk label children) :: visitsFrom 0 children

/-- Some steps and everything below them in the order of the walk, each with the way to it if the steps are numbered from
    an index on. -/
def visitsFrom (i : Nat) : List Step → List (List Nat × Step)
  | [] => []
  | s :: ss => s.visits.map (Prod.map (i :: ·) id) ++ visitsFrom (i + 1) ss

end

theorem visits_eq (s : Step) : s.visits = ([], s) :: visitsFrom 0 s.children := by
  cases s with
  | mk label children => rw [visits]; rfl

mutual

theorem map_snd_visits (s : Step) : s.visits.map Prod.snd = s.walk := by
  match s with
  | mk label children => rw [visits, walk, List.map_cons, map_snd_visitsFrom]

theorem map_snd_visitsFrom (i : Nat) (steps : List Step) : (visitsFrom i steps).map Prod.snd = walkAll steps := by
  match steps with
  | [] => rw [visitsFrom, walkAll, List.map_nil]
  | s :: ss =>
    rw [visitsFrom, walkAll, List.map_append, List.map_map, map_snd_visitsFrom (i + 1) ss, ← map_snd_visits s]
    rfl

end

/-- Each way begins with the index of a step and goes on from there. -/
theorem mem_visitsFrom {i : Nat} : (way, t) ∈ visitsFrom i steps ↔
    ∃ k rest s, way = (i + k) :: rest ∧ steps[k]? = some s ∧ (rest, t) ∈ s.visits := by
  induction steps generalizing i with
  | nil => simp [visitsFrom]
  | cons s ss ih =>
    have next (k : Nat) : i + 1 + k = i + (k + 1) := by omega
    simp only [visitsFrom, List.mem_append, ih, next]
    constructor
    · rintro (here | ⟨k, rest, u, rfl, later, below⟩)
      · obtain ⟨⟨rest, u⟩, below, same⟩ := List.mem_map.1 here
        cases same
        exact ⟨0, rest, s, rfl, rfl, below⟩
      · exact ⟨k + 1, rest, u, rfl, later, below⟩
    · rintro ⟨k, rest, u, rfl, found, below⟩
      cases k with
      | zero =>
        obtain rfl := Option.some.inj found
        exact .inl (List.mem_map.2 ⟨(rest, t), below, rfl⟩)
      | succ k => exact .inr ⟨k, rest, u, rfl, found, below⟩

/-- The walk from a step comes to what is reached by going down from it. -/
theorem mem_visits : (way, t) ∈ s.visits ↔ s.descend way = some t := by
  induction way generalizing s with
  | nil =>
    rw [visits_eq, List.mem_cons, mem_visitsFrom, descend_nil]
    simp [eq_comm]
  | cons i way ih =>
    rw [visits_eq, List.mem_cons, mem_visitsFrom, descend_cons, Option.bind_eq_some_iff]
    simp [ih]

/-- The walk over some steps comes to what the ways from the top lead to. -/
theorem mem_visitsFrom_zero : (way, t) ∈ visitsFrom 0 steps ↔ at? steps way = some t := by
  cases way with
  | nil => simp [mem_visitsFrom, at?]
  | cons i way => simp [mem_visitsFrom, mem_visits, at?_cons, Option.bind_eq_some_iff]

/-- Comes first among visits: by its way, in lexicographic order. -/
def Before (p q : List Nat × Step) : Prop := List.Lex (· < ·) p.1 q.1

mutual

theorem pairwise_visits (s : Step) : s.visits.Pairwise Before := by
  match s with
  | mk label children =>
    rw [visits, List.pairwise_cons]
    refine ⟨?_, pairwise_visitsFrom 0 children⟩
    rintro ⟨way, t⟩ mem
    obtain ⟨k, rest, u, rfl, -⟩ := mem_visitsFrom.1 mem
    exact .nil

theorem pairwise_visitsFrom (i : Nat) (steps : List Step) : (visitsFrom i steps).Pairwise Before := by
  match steps with
  | [] => rw [visitsFrom]; exact .nil
  | s :: ss =>
    rw [visitsFrom, List.pairwise_append]
    refine ⟨(pairwise_visits s).map _ fun p q first => .cons first, pairwise_visitsFrom (i + 1) ss, ?_⟩
    -- what is below a step comes before all that is below a later one
    rintro p here ⟨way, t⟩ later
    obtain ⟨q, -, rfl⟩ := List.mem_map.1 here
    obtain ⟨k, rest, u, rfl, -⟩ := mem_visitsFrom.1 later
    exact .rel (by omega)

end
end Step

/-- The walk over steps and the look-up by ways agree: the steps walked are, one after the other, the steps at the ways that
    lead to one, each way once and in lexicographic order. The ways that lead to none are the empty way and those with an
    index out of range at some level. -/
theorem walk_follows_ways (steps : List Step) :
    (∃ ways : List (List Nat),
      (steps.flatMap Step.walk).map some = ways.map (Step.at? steps) ∧
      ways.Pairwise (List.Lex (· < ·)) ∧
      ∀ way, way ∈ ways ↔ way ≠ [] ∧ (Step.at? steps way).isSome) ∧
    ∀ way, Step.at? steps way = none ↔ way = [] ∨ Step.Strays steps way := by
  refine ⟨⟨(Step.visitsFrom 0 steps).map Prod.fst, ?_, ?_, fun way => ?_⟩, fun way => Step.at?_eq_none_iff⟩
  · rw [← Step.walkAll_eq_flatMap, ← Step.map_snd_visitsFrom 0 steps, List.map_map, List.map_map]
    exact List.map_congr_left fun ⟨way, s⟩ mem => (Step.mem_visitsFrom_zero.1 mem).symm
  · exact (Step.pairwise_visitsFrom 0 steps).map _ fun p q first => first
  · constructor
    · intro mem
      obtain ⟨⟨way, s⟩, visited, rfl⟩ := List.mem_map.1 mem
      have found := Step.mem_visitsFrom_zero.1 visited
      refine ⟨?_, Option.isSome_of_eq_some found⟩
      rintro rfl
      cases found
    · rintro ⟨-, leads⟩
      obtain ⟨s, found⟩ := Option.isSome_iff_exists.1 leads
      exact List.mem_map.2 ⟨(way, s), Step.mem_visitsFrom_zero.2 found, rfl⟩

/-- A step with two below it, and a step behind it. -/
example (l : StepLabel) :
    (Step.visitsFrom 0 [⟨l, [.leaf l, .leaf l]⟩, .leaf l]).map Prod.fst = [[0], [0, 0], [0, 1], [1]] := rfl

end FlowScript
