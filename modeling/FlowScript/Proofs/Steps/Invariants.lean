import FlowScript.Proofs.Steps.Shape

/-!
# Invariants of steps

Every step in the view of a list, at whatever place, is formed as it should be: which steps can be collapsed and start
so, what stands below which, which have a message, and how deep they stand. The depth grows by one where a block is
spliced, by one to a section and by two to what is in it, but it is looked at only where a list begins; so sections may
stand one level below the limit, and errors two. Where these depths are sizes, no depth is anywhere too large for one.
-/

namespace FlowScript

/-- Whether all depths in a view that starts at a depth are in the range of sizes. -/
def StepOptions.Sized (o : StepOptions) (first : Nat) : Prop := first ≤ Json.maxSize ∧ o.maxDepth + 2 ≤ Json.maxSize

instance StepOptions.decidableSized (o : StepOptions) (first : Nat) : Decidable (o.Sized first) :=
  inferInstanceAs (Decidable (_ ∧ _))

/-- A step as it should be in a view that starts at a depth and has a limit. -/
structure Step.Proper (first limit : Nat) (s : Step) : Prop where
  collapsible : s.label.collapsible = true ↔ s.label.kind ∈ [.condition, .loop, .errorHandling]
  collapsed : s.label.defaultCollapsed = true ↔ s.label.collapsible = true ∧ 0 < s.label.depth
  /-- What can be collapsed has sections below it, and nothing else has. -/
  sections : ∀ c ∈ s.children, c.label.kind = .block ↔ s.label.collapsible = true
  sectionPlace : s.label.collapsible = true → ∀ c ∈ s.children, c.label.depth = s.label.depth + 1 ∧ c.label.span = none
  contents : s.label.kind = .block → ∀ c ∈ s.children, s.label.depth + 1 ≤ c.label.depth
  childless : s.label.collapsible = false → s.label.kind ≠ .block → s.children = []
  message : s.label.message.isSome = true ↔ s.label.kind = .error
  important : s.label.important = true → s.label.kind = .call
  within : s.label.kind ≠ .block → s.label.kind ≠ .error → s.label.depth ≤ limit
  deepest : s.label.depth ≤ max first (limit + 2)

/-- A view that starts elsewhere may hold the step as well if it goes as deep. -/
theorem Step.Proper.of_le {first first' limit : Nat} {s : Step} (h : s.Proper first limit)
    (le : first ≤ max first' (limit + 2)) : s.Proper first' limit := by
  have deepest := h.deepest
  exact { h with deepest := by omega }

/-! ## Kinds -/

section
variable {s : Stmt}

theorem Stmt.stepKind_ne_error (valid : s.fault? = none) : s.stepKind ≠ .error := by
  intro error
  have := Stmt.stepKind_eq_error_iff.1 error
  rw [valid] at this
  cases this

/-- The statements with sections are shown by the kinds of steps that can be collapsed. -/
theorem Stmt.isContainer_iff (valid : s.fault? = none) :
    s.isContainer = true ↔ s.stepKind ∈ [.condition, .loop, .errorHandling] := by
  cases s with
  | expr e span => cases call : e.unwrapAwait <;> simp [isContainer, sections, stepKind, fault?, call]
  | _ => simp [isContainer, sections, stepKind, valid]

end

namespace StepView

variable {v : StepView} {depth : Nat} {s : Stmt} {l : StepLabel}

/-! ## One step -/

theorem proper_faultLabel {first limit : Nat} (fault : StepFault) (span : Span) (le : depth ≤ max first (limit + 2)) :
    (Step.leaf (v.faultLabel fault span depth)).Proper first limit where
  collapsible := by simp [Step.leaf, Step.label, faultLabel]
  collapsed := by simp [Step.leaf, Step.label, faultLabel]
  sections := nofun
  sectionPlace := nofun
  contents := nofun
  childless := fun _ _ => rfl
  message := by simp [Step.leaf, Step.label, faultLabel]
  important := nofun
  within := fun _ other => absurd rfl other
  deepest := le

theorem Tells.proper (tells : v.Tells depth s l) (valid : s.fault? = none) (other : ∀ inner span, s ≠ .block inner span)
    {limit : Nat} (within : depth ≤ limit) : (Step.mk l (v.sectionSteps depth s)).Proper depth limit where
  collapsible := by
    show l.collapsible = true ↔ l.kind ∈ _
    rw [tells.collapsible, tells.kind, Stmt.isContainer_iff valid]
  collapsed := by
    show l.defaultCollapsed = true ↔ l.collapsible = true ∧ 0 < l.depth
    rw [tells.collapsed, tells.collapsible, tells.depth]
    simp
  sections := by
    intro part mem
    have container : s.isContainer = true := by
      by_contra leaf
      have none : v.sectionSteps depth s = [] := sectionSteps_eq_nil_iff.2 (Bool.eq_false_iff.2 leaf)
      rw [none] at mem
      cases mem
    obtain ⟨title, inner, among, rfl⟩ := mem_sectionSteps.1 mem
    show StepKind.block = .block ↔ l.collapsible = true
    rw [tells.collapsible, container]
    simp
  sectionPlace := by
    intro _ part mem
    obtain ⟨title, inner, among, rfl⟩ := mem_sectionSteps.1 mem
    exact ⟨congrArg (· + 1) tells.depth.symm, rfl⟩
  contents := by
    intro block
    exact absurd (tells.kind.symm.trans block) (Stmt.stepKind_ne_block other)
  childless := by
    intro leaf _
    have leaf : l.collapsible = false := leaf
    rw [tells.collapsible] at leaf
    exact sectionSteps_eq_nil_iff.2 leaf
  message := by
    show l.message.isSome = true ↔ l.kind = .error
    rw [tells.message, tells.kind]
    constructor
    · nofun
    · intro error
      exact absurd error (Stmt.stepKind_ne_error valid)
  important := tells.important
  within := by
    intro _ _
    show l.depth ≤ limit
    rw [tells.depth]
    exact within
  deepest := by
    show l.depth ≤ _
    rw [tells.depth]
    omega

/-- A section stands one level below its step and has nothing but steps two levels below it. -/
theorem proper_section {limit : Nat} (title : Message) {steps : List Step} (within : depth ≤ limit)
    (inside : ∀ c ∈ steps, c.label.kind ≠ .block ∧ depth + 2 ≤ c.label.depth) :
    (Step.mk (v.sectionLabel title depth) steps).Proper depth limit where
  collapsible := by simp [Step.label, sectionLabel]
  collapsed := by simp [Step.label, sectionLabel]
  sections := by
    intro c mem
    constructor
    · intro block
      exact absurd block (inside c mem).1
    · intro collapsible
      cases collapsible
  sectionPlace := by
    intro collapsible
    cases collapsible
  contents := by
    intro _ c mem
    exact (inside c mem).2
  childless := fun _ other => absurd rfl other
  message := by simp [Step.label, sectionLabel]
  important := by
    intro important
    cases important
  within := fun other => absurd rfl other
  deepest := by
    show depth + 1 ≤ _
    omega

/-! ## All steps -/

/-- The steps of a list are no sections, and stand no higher than the list. -/
theorem top_steps (v : StepView) (depth : Nat) (body : List Stmt) :
    ∀ step ∈ (v.steps depth body).value, step.label.kind ≠ .block ∧ depth ≤ step.label.depth := by
  induction depth, body using reached_induction with
  | list depth body spliced _ =>
    intro step mem
    cases stepOf_of_mem mem with
    | deep | invalid => exact ⟨nofun, Nat.le_refl _⟩
    | @spliced inner span _ _ among mem =>
      obtain ⟨kind, deeper⟩ := spliced inner span among step mem
      exact ⟨kind, by omega⟩
    | @valid s l _ _ _ other tells =>
      constructor
      · show l.kind ≠ .block
        rw [tells.kind]
        exact Stmt.stepKind_ne_block other
      · exact Nat.le_of_eq tells.depth.symm

theorem Within.proper {body : List Stmt} {t : Step} (shown : v.Within depth body t) :
    t.Proper depth v.options.maxDepth := by
  induction shown with
  | deep span lt => exact proper_faultLabel _ _ (by omega)
  | spliced within _ _ ih => exact ih.of_le (by omega)
  | invalid within _ _ => exact proper_faultLabel _ _ (by omega)
  | valid within _ valid other tells => exact tells.proper valid other within
  | part within _ _ => exact proper_section _ within (top_steps v _ _)
  | inside within _ _ _ ih => exact ih.of_le (by omega)

end StepView

/-- No depth in a view is too large for a size if none of those that bound it is. -/
theorem StepView.depth_le_maxSize (v : StepView) {depth : Nat} (body : List Stmt) (sized : v.options.Sized depth) :
    ∀ s ∈ Step.walkAll (v.steps depth body).value, s.label.depth ≤ Json.maxSize := by
  intro s below
  obtain ⟨start, limit⟩ := sized
  exact Nat.le_trans (v.within_of_mem_walkAll depth body s below).proper.deepest (Nat.max_le.2 ⟨start, limit⟩)

/-- In a view whose depths are sizes, every step is proper, and none at the top is a section. Below the limit there are
    only errors. -/
theorem proper_stepsOf (options : StepOptions) (localizer : Localizer) (depth : Nat) (body : List Stmt)
    (sized : options.Sized depth) :
    let steps := stepsOf options localizer depth body
    (∀ s ∈ Step.walkAll steps, s.Proper depth options.maxDepth ∧ s.label.depth ≤ Json.maxSize) ∧
      (∀ s ∈ steps, s.label.kind ≠ .block) ∧
      (options.maxDepth < depth → ∀ s ∈ Step.walkAll steps, s.label.kind = .error) := by
  intro steps
  let v : StepView := ⟨options, localizer⟩
  refine ⟨fun t below => ⟨(v.within_of_mem_walkAll depth body t below).proper, ?_⟩, ?_, ?_⟩
  · exact v.depth_le_maxSize body sized t below
  · intro s mem
    exact (v.top_steps depth body s mem).1
  · intro lt t below
    cases v.within_of_mem_walkAll depth body t below with
    | deep => rfl
    | spliced within | invalid within | valid within | part within | inside within =>
      exact absurd lt (Nat.not_lt.2 within)

/-- The loop `while (this) ;`. -/
private def endlessLoop : Stmt := .while (some (.this .none)) (.empty .none) .none

/-- A loop at the limit has an error two levels below it; one below the limit is an error itself. -/
theorem proper_stepsOf_endlessLoop :
    let options := { StepOptions.standard with maxDepth := 0 }
    (∃ s ∈ Step.walkAll (stepsOf options .echo 0 [endlessLoop]), s.label.depth = 2 ∧ s.Proper 0 0) ∧
      (∀ s ∈ Step.walkAll (stepsOf options .echo 1 [endlessLoop]), s.label.kind = .error) ∧
      (Step.walkAll (stepsOf options .echo 1 [endlessLoop])).length = 1 := by
  intro options
  have depths : (Step.walkAll (stepsOf options .echo 0 [endlessLoop])).map (·.label.depth) = [0, 1, 2] := by
    decide +kernel
  have deep : 2 ∈ (Step.walkAll (stepsOf options .echo 0 [endlessLoop])).map (·.label.depth) := by simp [depths]
  obtain ⟨s, mem, depth⟩ := List.mem_map.1 deep
  refine ⟨⟨s, mem, depth, ?_⟩, ?_, ?_⟩
  · exact ((proper_stepsOf options .echo 0 [endlessLoop] (by decide)).1 s mem).1
  · exact (proper_stepsOf options .echo 1 [endlessLoop] (by decide)).2.2 (by decide)
  · decide +kernel

end FlowScript
