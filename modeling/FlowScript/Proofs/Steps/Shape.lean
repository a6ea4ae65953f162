import FlowScript.Proofs.Steps.Origin

/-!
# The shape of steps

What the steps of a list are, one level at a time: an error for a list below the limit, else the steps of the block that
is spliced, an error for an invalid statement, or a step that tells of a valid one. Below that stand the sections of the
statement, and in each of them the steps of its list two levels deeper.
-/

namespace FlowScript

/-- What the step of a valid statement is called; a call may be important. -/
def Stmt.stepTitle (s : Stmt) (important : Bool) : Message :=
  match s with
  | .varDecl .. => .plain "steps.variable"
  | .ret .. => .plain "steps.return"
  | .expr e _ =>
    match e.unwrapAwait with
    | .call .. => .plain (if important then "steps.important_call" else "steps.call")
    | _ => .plain "steps.expression"
  | .ifElse .. => .plain "steps.condition"
  | .for .. | .forEach .. | .while .. | .doWhile .. => .plain "steps.loop"
  | .try .. => .plain "steps.error_handling"
  | s => ⟨"steps.unknown", [("kind", s.kindName)]⟩

/-- Whether a statement is shown with sections. -/
def Stmt.isContainer (s : Stmt) : Bool := !s.sections.isEmpty

namespace StepView

variable {v : StepView} {depth : Nat} {body : List Stmt} {s : Stmt} {step : Step} {l : StepLabel}

/-- The sections of a statement with their labels. -/
def labelledSections (v : StepView) : Stmt → List (Message × List Stmt)
  | .ifElse _ consequent alternate _ =>
    (.plain "steps.then", consequent.asBody) :: alternate.toList.map fun s => (.plain "steps.else", s.asBody)
  | .for _ _ _ body _ => [(.plain "steps.loop_body", body.asBody)]
  | .forEach _ _ _ _ body _ => [(.plain "steps.loop_body", body.asBody)]
  | .while _ body _ => [(.plain "steps.loop_body", body.asBody)]
  | .doWhile body _ _ => [(.plain "steps.loop_body", body.asBody)]
  | .try tried handler finalizer _ =>
    (.plain "steps.try", tried) :: (handler.toList.map (fun clause => (v.catchLabel clause.param, clause.body)) ++
      finalizer.toList.map fun body => (.plain "steps.finally", body))
  | _ => []

theorem map_snd_labelledSections (v : StepView) (s : Stmt) : (v.labelledSections s).map Prod.snd = s.sections := by
  cases s with
  | ifElse test consequent alternate span => cases alternate <;> rfl
  | «try» tried handler finalizer span => cases handler <;> cases finalizer <;> rfl
  | _ => rfl

/-- The outline that goes with a condition or a loop. -/
def detailOf (v : StepView) : Stmt → Option String
  | .ifElse _ consequent alternate _ => some (v.branches consequent alternate).value
  | .for _ _ _ body _ => some (v.outline body.asBody).value
  | .forEach _ _ _ _ body _ => some (v.outline body.asBody).value
  | .while _ body _ => some (v.outline body.asBody).value
  | .doWhile body _ _ => some (v.outline body.asBody).value
  | _ => none

/-- The label of a section. -/
def sectionLabel (v : StepView) (title : Message) (depth : Nat) : StepLabel :=
  { kind := .block, title := title.localize v.localizer, depth := depth + 1, color := .gray }

/-- The sections of a statement at a depth. -/
def sectionSteps (v : StepView) (depth : Nat) (s : Stmt) : List Step :=
  (v.labelledSections s).map fun (title, inner) => ⟨v.sectionLabel title depth, (v.steps (depth + 2) inner).value⟩

/-- The label of an error. -/
def faultLabel (v : StepView) (fault : StepFault) (span : Span) (depth : Nat) : StepLabel :=
  { kind := .error, title := fault.title.localize v.localizer, depth, color := .red
    message := some (fault.message.localize v.localizer), span := some span }

/-- A label that tells of a valid statement at a depth. -/
structure Tells (v : StepView) (d : Nat) (s : Stmt) (l : StepLabel) : Prop where
  kind : l.kind = s.stepKind
  depth : l.depth = d
  span : l.span = some s.span
  message : l.message = none
  important : l.important = true → l.kind = .call
  collapsible : l.collapsible = s.isContainer
  collapsed : l.defaultCollapsed = (s.isContainer && decide (0 < d))
  title : l.title = (s.stepTitle l.important).localize v.localizer
  /-- The summary is code cut to its width, or says which parts a `try` has. -/
  summary : (∃ code, l.summary = v.summary code) ∨ ∃ caught ended : Bool,
    l.summary = some ("try" ++ (if caught then " … catch" else "") ++ (if ended then " … finally" else ""))
  detail : l.detail = v.detailOf s

/-! ## One statement -/

theorem value_stepsOf_block (inner : List Stmt) (span : Span) :
    v.stepsOf depth (.block inner span) = v.steps (depth + 1) inner := by
  rw [stepsOf, steps]

/-- The steps of a branch or body are those of the list that it stands for. -/
theorem value_alone (v : StepView) (depth : Nat) (s : Stmt) :
    (v.alone depth s fun d => v.stepsOf d s).value = (v.steps (depth + 1) s.asBody).value := by
  unfold alone
  split
  · rename_i inner span
    rw [Stmt.asBody, ← value_stepsOf_block inner span]
  · rename_i other
    have single : s.asBody = [s] := by rw [Stmt.asBody]; exact other
    rw [single, steps, bounded, bounded]
    split
    · rfl
    · simp [stepsOfList]

theorem tells_simple (kind : StepKind) (color : Color) (title : Message) (code : String) (right : s.stepKind = kind)
    (leaf : s.sections = []) (detail : v.detailOf s = none) (named : s.stepTitle false = title) :
    ∃ l, (v.simple depth s kind color title code).value = [.leaf l] ∧ v.Tells depth s l :=
  ⟨_, rfl, {
    kind := right.symm
    depth := rfl
    span := rfl
    message := rfl
    important := nofun
    collapsible := by rw [Stmt.isContainer, leaf]; rfl
    collapsed := by rw [Stmt.isContainer, leaf]; rfl
    title := by rw [named]; rfl
    summary := .inl ⟨code, rfl⟩
    detail := detail.symm }⟩

theorem tells_expression (e : Expr) (span : Span) :
    ∃ l, (v.expression depth e (.expr e span)).value = [.leaf l] ∧ v.Tells depth (.expr e span) l := by
  cases call : e.unwrapAwait with
  | call callee args optional at_ =>
    rw [expression, call]
    dsimp only
    generalize isImportantCode (Text.oneLine callee.renderCompact v.options.calleeWidth) = important
    exact ⟨_, rfl, {
      kind := by simp [Stmt.stepKind, Stmt.fault?, call]
      depth := rfl
      span := rfl
      message := rfl
      important := fun _ => rfl
      collapsible := rfl
      collapsed := rfl
      title := by simp [Stmt.stepTitle, call, label, say, Message.plain, Message.localize]
      summary := .inl ⟨_, rfl⟩
      detail := rfl }⟩
  | _ =>
    rw [expression, call]
    exact tells_simple _ _ _ _ (by simp [Stmt.stepKind, Stmt.fault?, call]) rfl rfl (by simp [Stmt.stepTitle, call])

/-- The label of a step with sections. -/
def containerLabel (v : StepView) (depth : Nat) (s : Stmt) (color : Color) (summary : Option String) : StepLabel :=
  { kind := s.stepKind, title := (s.stepTitle false).localize v.localizer, depth, color, summary
    detail := v.detailOf s, collapsible := true, defaultCollapsed := decide (0 < depth), span := some s.span }

theorem tells_containerLabel (color : Color) {summary : Option String} (container : s.isContainer = true)
    (coded : (∃ code, summary = v.summary code) ∨ ∃ caught ended : Bool,
      summary = some ("try" ++ (if caught then " … catch" else "") ++ (if ended then " … finally" else ""))) :
    v.Tells depth s (v.containerLabel depth s color summary) where
  kind := rfl
  depth := rfl
  span := rfl
  message := rfl
  important := nofun
  collapsible := container.symm
  collapsed := by rw [container]; rfl
  title := rfl
  summary := coded
  detail := rfl

theorem tells_loop {body : Stmt} (right : s.stepKind = .loop) (container : s.isContainer = true)
    (named : s.stepTitle false = .plain "steps.loop")
    (labelled : v.labelledSections s = [(.plain "steps.loop_body", body.asBody)])
    (detail : v.detailOf s = some (v.outline body.asBody).value) :
    ∃ l, (do v.loop depth s body (← v.alone (depth + 1) body fun d => v.stepsOf d body)).value =
      [⟨l, v.sectionSteps depth s⟩] ∧ v.Tells depth s l := by
  let summary := v.summary s.renderLoopHead
  refine ⟨v.containerLabel depth s .blue summary, ?_, tells_containerLabel .blue container (.inl ⟨_, rfl⟩)⟩
  simp [loop, part, label, say, sectionSteps, labelled, sectionLabel, value_alone, Step.container, containerLabel, right,
    named, detail, summary]

/-- A valid statement that is no block has one step, which tells of it, around the steps of its sections. -/
theorem exists_tells (v : StepView) (depth : Nat) (other : ∀ inner span, s ≠ .block inner span)
    (valid : s.fault? = none) :
    ∃ l, (v.stepsOf depth s).value = [⟨l, v.sectionSteps depth s⟩] ∧ v.Tells depth s l := by
  have simple (kind color title code) (is : v.stepsOf depth s = v.simple depth s kind color title code)
      (right : s.stepKind = kind) (childless : v.labelledSections s = []) (leaf : s.sections = [])
      (detail : v.detailOf s = none) (named : s.stepTitle false = title) :
      ∃ l, (v.stepsOf depth s).value = [⟨l, v.sectionSteps depth s⟩] ∧ v.Tells depth s l := by
    rw [is, sectionSteps, childless]
    exact tells_simple kind color title code right leaf detail named
  cases s with
  | block inner span => exact absurd rfl (other inner span)
  | varDecl kind declarations span =>
    cases declarations with
    | nil => cases valid
    | cons d ds => exact simple .declaration .purple _ _ rfl rfl rfl rfl rfl rfl
  | ret value span => exact simple .ret .green _ _ rfl rfl rfl rfl rfl rfl
  | expr e span =>
    rw [stepsOf]
    exact tells_expression e span
  | ifElse test consequent alternate span =>
    cases test with
    | none => cases valid
    | some test =>
      let summary := v.summary ("if (" ++ test.renderCompact ++ ")")
      refine ⟨v.containerLabel depth _ .amber summary, ?_, tells_containerLabel .amber rfl (.inl ⟨_, rfl⟩)⟩
      cases alternate <;>
        simp [stepsOf, part, label, say, sectionSteps, labelledSections, sectionLabel, value_alone, Step.container,
          containerLabel, Stmt.stepKind, Stmt.fault?, Stmt.stepTitle, detailOf, Stmt.span, summary]
  | «for» init test update body span => rw [stepsOf]; exact tells_loop rfl rfl rfl rfl rfl
  | forEach kind isAwait left right body span => rw [stepsOf]; exact tells_loop rfl rfl rfl rfl rfl
  | «while» test body span =>
    cases test with
    | none => cases valid
    | some test => rw [stepsOf]; exact tells_loop rfl rfl rfl rfl rfl
  | doWhile body test span =>
    cases test with
    | none => cases valid
    | some test => rw [stepsOf]; exact tells_loop rfl rfl rfl rfl rfl
  | «try» tried handler finalizer span =>
    refine ⟨v.containerLabel depth _ .red _, ?_,
      tells_containerLabel .red rfl (.inr ⟨handler.isSome, finalizer.isSome, rfl⟩)⟩
    rcases handler with _ | ⟨param, inner, at_⟩ <;> cases finalizer
    · cases valid
    all_goals
      simp [stepsOf, part, label, say, sectionSteps, labelledSections, sectionLabel, steps, Step.container,
        containerLabel, Stmt.stepKind, Stmt.fault?, Stmt.stepTitle, detailOf, Stmt.span, CatchClause.param,
        CatchClause.body]
  | _ => exact simple .unknown .pink _ _ rfl rfl rfl rfl rfl rfl

theorem value_stepsOf_of_fault {fault : StepFault} (invalid : s.fault? = some fault) :
    (v.stepsOf depth s).value = [.leaf (v.faultLabel fault s.span depth)] := by
  cases s with
  | varDecl kind declarations span =>
    cases declarations with
    | nil => cases invalid; rfl
    | cons d ds => cases invalid
  | ifElse test consequent alternate span =>
    cases test with
    | none => cases invalid; rfl
    | some test => cases invalid
  | «while» test body span =>
    cases test with
    | none => cases invalid; rfl
    | some test => cases invalid
  | doWhile body test span =>
    cases test with
    | none => cases invalid; rfl
    | some test => cases invalid
  | «try» tried handler finalizer span =>
    rcases handler with _ | ⟨param, inner, at_⟩ <;> cases finalizer <;> cases invalid
    rfl
  | _ => cases invalid

/-! ## Lists -/

/-- What a step of a list at a depth is. -/
inductive StepOf (v : StepView) (depth : Nat) (body : List Stmt) : Step → Prop
  /-- The error in place of a list below the limit. -/
  | deep (span : Span) : v.options.maxDepth < depth →
      StepOf v depth body (.leaf (v.faultLabel (.tooDeep v.options.maxDepth) span depth))
  /-- A step of a block that is spliced. -/
  | spliced {inner : List Stmt} {span : Span} {step : Step} : depth ≤ v.options.maxDepth → .block inner span ∈ body →
      step ∈ (v.steps (depth + 1) inner).value → StepOf v depth body step
  /-- The error in place of an invalid statement. -/
  | invalid {s : Stmt} {fault : StepFault} : depth ≤ v.options.maxDepth → s ∈ body → s.fault? = some fault →
      StepOf v depth body (.leaf (v.faultLabel fault s.span depth))
  /-- The step of a valid statement, with its sections. -/
  | valid {s : Stmt} {l : StepLabel} : depth ≤ v.options.maxDepth → s ∈ body → s.fault? = none →
      (∀ inner span, s ≠ .block inner span) → v.Tells depth s l → StepOf v depth body ⟨l, v.sectionSteps depth s⟩

theorem exists_of_mem_stepsOfList (mem : step ∈ (v.stepsOfList depth body).value) :
    ∃ s ∈ body, step ∈ (v.stepsOf depth s).value := by
  induction body with
  | nil => cases mem
  | cons s ss ih =>
    rw [stepsOfList] at mem
    simp only [Worded.value_bind, Worded.value_pure, List.mem_append] at mem
    rcases mem with first | later
    · refine ⟨s, List.mem_cons_self .., ?_⟩
      unfold shown at first
      split at first
      · cases first
      · exact first
    · obtain ⟨t, among, mem⟩ := ih later
      exact ⟨t, List.mem_cons_of_mem _ among, mem⟩

theorem stepOf_of_mem (mem : step ∈ (v.steps depth body).value) : v.StepOf depth body step := by
  unfold steps bounded at mem
  split at mem
  · next below =>
    split at mem
    · obtain rfl := List.mem_singleton.1 mem
      exact .deep _ below
    · cases mem
  · next within =>
    have within := Nat.le_of_not_lt within
    obtain ⟨s, among, mem⟩ := exists_of_mem_stepsOfList mem
    rcases s.block_or_fault_or_valid with ⟨inner, span, rfl⟩ | ⟨fault, invalid⟩ | ⟨other, valid⟩
    · rw [value_stepsOf_block] at mem
      exact .spliced within among mem
    · rw [value_stepsOf_of_fault invalid] at mem
      obtain rfl := List.mem_singleton.1 mem
      exact .invalid within among invalid
    · obtain ⟨l, is, tells⟩ := exists_tells v depth other valid
      rw [is] at mem
      obtain rfl := List.mem_singleton.1 mem
      exact .valid within among valid other tells

/-- The children of a step are sections, each with the steps of a list of its statement. -/
theorem mem_sectionSteps {part : Step} :
    part ∈ v.sectionSteps depth s ↔ ∃ title inner, (title, inner) ∈ v.labelledSections s ∧
      part = ⟨v.sectionLabel title depth, (v.steps (depth + 2) inner).value⟩ := by
  simp [sectionSteps, eq_comm]

theorem sectionSteps_eq_nil_iff : v.sectionSteps depth s = [] ↔ s.isContainer = false := by
  rw [sectionSteps, List.map_eq_nil_iff, Stmt.isContainer, ← map_snd_labelledSections v s]
  simp

theorem mem_sections_of_mem_labelledSections {title : Message} {inner : List Stmt}
    (mem : (title, inner) ∈ v.labelledSections s) : inner ∈ s.sections := by
  rw [← map_snd_labelledSections v s]
  exact List.mem_map_of_mem mem

end StepView

/-! ## Everything below steps -/

namespace Step

theorem mem_walk {s t : Step} : t ∈ s.walk ↔ t = s ∨ t ∈ walkAll s.children := by
  cases s with
  | mk label children => rw [walk, List.mem_cons]; rfl

theorem mem_walkAll {t : Step} {steps : List Step} : t ∈ walkAll steps ↔ ∃ s ∈ steps, t ∈ s.walk := by
  rw [walkAll_eq_flatMap, List.mem_flatMap]

end Step

namespace StepView

/-- What the steps of a list at a depth, and all steps below them, are. -/
inductive Within (v : StepView) : Nat → List Stmt → Step → Prop
  /-- The error in place of a list below the limit. -/
  | deep {depth : Nat} {body : List Stmt} (span : Span) : v.options.maxDepth < depth →
      Within v depth body (.leaf (v.faultLabel (.tooDeep v.options.maxDepth) span depth))
  /-- A step in a block that is spliced. -/
  | spliced {depth : Nat} {body inner : List Stmt} {span : Span} {t : Step} : depth ≤ v.options.maxDepth →
      .block inner span ∈ body → Within v (depth + 1) inner t → Within v depth body t
  /-- The error in place of an invalid statement. -/
  | invalid {depth : Nat} {body : List Stmt} {s : Stmt} {fault : StepFault} : depth ≤ v.options.maxDepth → s ∈ body →
      s.fault? = some fault → Within v depth body (.leaf (v.faultLabel fault s.span depth))
  /-- The step of a valid statement. -/
  | valid {depth : Nat} {body : List Stmt} {s : Stmt} {l : StepLabel} : depth ≤ v.options.maxDepth → s ∈ body →
      s.fault? = none → (∀ inner span, s ≠ .block inner span) → v.Tells depth s l →
      Within v depth body ⟨l, v.sectionSteps depth s⟩
  /-- A section of a statement. -/
  | part {depth : Nat} {body inner : List Stmt} {s : Stmt} {title : Message} : depth ≤ v.options.maxDepth → s ∈ body →
      (title, inner) ∈ v.labelledSections s →
      Within v depth body ⟨v.sectionLabel title depth, (v.steps (depth + 2) inner).value⟩
  /-- A step in a section of a statement. -/
  | inside {depth : Nat} {body inner : List Stmt} {s : Stmt} {t : Step} : depth ≤ v.options.maxDepth → s ∈ body →
      inner ∈ s.sections → Within v (depth + 2) inner t → Within v depth body t

theorem within_of_mem_walkAll (v : StepView) (depth : Nat) (body : List Stmt) :
    ∀ t ∈ Step.walkAll (v.steps depth body).value, v.Within depth body t := by
  induction depth, body using reached_induction with
  | list depth body spliced inSection =>
    intro t below
    obtain ⟨step, mem, below⟩ := Step.mem_walkAll.1 below
    cases stepOf_of_mem mem with
    | deep span lt =>
      obtain rfl := List.mem_singleton.1 below
      exact .deep span lt
    | @spliced inner span _ within among mem =>
      exact .spliced within among (spliced inner span among t (Step.mem_walkAll.2 ⟨step, mem, below⟩))
    | invalid within among invalid =>
      obtain rfl := List.mem_singleton.1 below
      exact .invalid within among invalid
    | @valid s l within among valid other tells =>
      rcases Step.mem_walk.1 below with rfl | below
      · exact .valid within among valid other tells
      · -- what is below stands in a section, or is one
        obtain ⟨part, isPart, below⟩ := Step.mem_walkAll.1 below
        obtain ⟨title, inner, labelled, rfl⟩ := mem_sectionSteps.1 isPart
        have section_ := mem_sections_of_mem_labelledSections labelled
        rcases Step.mem_walk.1 below with rfl | below
        · exact .part within among labelled
        · exact .inside within among section_ (inSection s among inner section_ t below)

end StepView
end FlowScript
