import FlowScript.Proofs.Diagnostics.Nests
import FlowScript.Proofs.Steps.Coverage

/-!
# Missing parts are errors in both views

The steps view and the rule for missing conditions each judge for themselves which statements lack a part. They agree:
what the steps view shows as an error for this reason is reported at the same place, and what is reported is shown as an
error wherever the steps view comes.
-/

namespace FlowScript

/-- Whether a condition was left empty, or a `try` has neither handler nor finalizer. -/
def Stmt.lacksPart : Stmt → Bool
  | .ifElse none _ _ _ | .while none _ _ | .doWhile _ none _ | .try _ none none _ => true
  | _ => false

/-- Whether the fault is that a part was left out. -/
def StepFault.isMissingPart : StepFault → Bool
  | missingCondition | missingLoopCondition | missingHandler => true
  | noDeclarations | tooDeep _ => false

/-- Whether the step is an error because a part was left out. -/
def StepOrigin.lacksPart (o : StepOrigin) : Bool := o.fault?.any StepFault.isMissingPart

theorem Stmt.any_fault?_isMissingPart (s : Stmt) : s.fault?.any StepFault.isMissingPart = s.lacksPart := by
  cases s with
  | varDecl kind declarations span => cases declarations <;> rfl
  | ifElse test consequent alternate span => cases test <;> rfl
  | «while» test body span => cases test <;> rfl
  | doWhile body test span => cases test <;> rfl
  | «try» tried handler finalizer span => cases handler <;> cases finalizer <;> rfl
  | _ => rfl

theorem Stmt.exists_fault_of_lacksPart {s : Stmt} (lacks : s.lacksPart = true) :
    ∃ fault, s.fault? = some fault ∧ fault.isMissingPart = true := by
  rw [← s.any_fault?_isMissingPart] at lacks
  exact (Option.any_eq_true _ _).1 lacks

/-! ## What the rule reports -/

namespace LintRule

theorem isSome_missingIn? (s : Stmt) : (missingIn? s).isSome = s.lacksPart := by
  cases s with
  | ifElse test consequent alternate span => cases test <;> rfl
  | «while» test body span => cases test <;> rfl
  | doWhile body test span => cases test <;> rfl
  | «try» tried handler finalizer span => cases handler <;> cases finalizer <;> rfl
  | _ => rfl

/-- The rule reports one error for each statement that lacks a part, outer ones first. -/
theorem map_check_missingCondition (body : List Stmt) :
    ((missingCondition.check (Nest.ofStmts body)).map fun d => (d.span, d.severity, d.rule)) =
      ((statementsIn body).filter Stmt.lacksPart).map fun s => (s.span, .error, .missingCondition) := by
  rw [check, emptyConditions, Nest.stmts_ofStmts]
  induction statementsIn body with
  | nil => rfl
  | cons s ss ih =>
    cases missing : missingIn? s with
    | none =>
      have whole : s.lacksPart = false := by rw [← isSome_missingIn?, missing]; rfl
      simpa [missing, whole] using ih
    | some message =>
      have lacks : s.lacksPart = true := by rw [← isSome_missingIn?, missing]; rfl
      simpa [missing, lacks] using ih

end LintRule

/-- Every statement in a script that lacks a part is reported at its place. -/
theorem exists_diagnostic_of_lacksPart {body : List Stmt} {s : Stmt} (mem : s ∈ statementsIn body)
    (lacks : s.lacksPart = true) :
    ∃ d ∈ diagnose body, d.rule = .missingCondition ∧ d.severity = .error ∧ d.span = s.span := by
  have reported : (s.span, Severity.error, LintRule.missingCondition) ∈
      (LintRule.missingCondition.check (Nest.ofStmts body)).map fun d => (d.span, d.severity, d.rule) := by
    rw [LintRule.map_check_missingCondition]
    exact List.mem_map_of_mem (List.mem_filter.2 ⟨mem, lacks⟩)
  obtain ⟨d, found, same⟩ := List.mem_map.1 reported
  simp only [Prod.mk.injEq] at same
  obtain ⟨span, severity, rule⟩ := same
  exact ⟨d, mem_diagnose.2 ⟨_, found⟩, rule, severity, span⟩

/-! ## Where the steps view comes -/

/-- Rules see every statement that a step comes from. -/
theorem mem_statementsIn_of_mem_originsOfList {keep : Stmt → Bool} {limit depth : Nat} {body : List Stmt} {s : Stmt}
    {d : Nat} (shown : .stmt s d ∈ originsOfList keep limit depth body) : s ∈ statementsIn body := by
  induction depth, body using reached_induction with
  | list depth body spliced inSection =>
    by_cases below : limit < depth
    · -- Only the list itself is shown here, as one error.
      rw [originsOfList_of_lt _ body below] at shown
      exact absurd shown StepOrigin.stmt_not_mem_ofList
    · rw [originsOfList_of_le _ body (Nat.le_of_not_lt below)] at shown
      obtain ⟨t, kept, shown⟩ := List.mem_flatMap.1 shown
      have member := (List.mem_filter.1 kept).1
      refine mem_statementsIn.2 ⟨t, member, ?_⟩
      rcases t.block_or_fault_or_valid with ⟨inner, span, rfl⟩ | ⟨fault, invalid⟩ | ⟨other, valid⟩
      · rw [originsOf_block] at shown
        exact .inr ⟨inner, List.mem_singleton_self _, spliced inner span member shown⟩
      · rw [originsOf_of_fault _ _ _ invalid] at shown
        cases List.mem_singleton.1 shown
        exact .inl rfl
      · rw [originsOf_of_valid _ _ _ other valid] at shown
        rcases List.mem_cons.1 shown with same | later
        · cases same
          exact .inl rfl
        · obtain ⟨inner, inside, shown⟩ := List.mem_flatMap.1 later
          exact .inr ⟨inner, Stmt.mem_nestedBodies_of_mem_sections inside, inSection t member inner inside shown⟩

section
variable {limit depth d : Nat} {body list : List Stmt}

/-- A view of all statements comes to the origins of every list within the limit that is reached. -/
theorem originsOfList_subset_of_reached (reached : Reached depth body d list) (within : d ≤ limit) :
    originsOfList (fun _ => true) limit d list ⊆ originsOfList (fun _ => true) limit depth body := by
  induction reached with
  | here => exact fun o mem => mem
  | @spliced e outer inner span _ member ih =>
    intro o mem
    apply ih (by omega)
    rw [originsOfList_of_le _ outer (by omega), List.filter_true]
    refine List.mem_flatMap.2 ⟨_, member, ?_⟩
    rwa [originsOf_block]
  | @shown e outer inner s _ member valid inside ih =>
    have other (inner : List Stmt) (span : Span) : s ≠ .block inner span := by
      rintro rfl
      simp [Stmt.sections] at inside
    intro o mem
    apply ih (by omega)
    rw [originsOfList_of_le _ outer (by omega), List.filter_true]
    refine List.mem_flatMap.2 ⟨s, member, ?_⟩
    rw [originsOf_of_valid _ _ _ other valid]
    exact List.mem_cons_of_mem _ (List.mem_flatMap.2 ⟨inner, inside, mem⟩)

theorem mem_originsOfList_of_reached {s : Stmt} {fault : StepFault} (reached : Reached depth body d list)
    (within : d ≤ limit) (member : s ∈ list) (invalid : s.fault? = some fault) :
    .stmt s d ∈ originsOfList (fun _ => true) limit depth body := by
  apply originsOfList_subset_of_reached reached within
  rw [originsOfList_of_le _ list within, List.filter_true]
  refine List.mem_flatMap.2 ⟨s, member, ?_⟩
  rw [originsOf_of_fault _ _ _ invalid]
  exact List.mem_singleton_self _

end

/-- The steps view and the rule for missing conditions agree on what lacks a part. The steps bear the traces of the
    origins; every origin that lacks a part is reported, so none does if no error is reported. The rule reports one error
    for each statement that lacks a part, in whatever list inside another it stands, and a view of all statements shows
    it as an error if it comes to the list. -/
theorem lacksPart_agrees (options : StepOptions) (localizer : Localizer) (depth : Nat) (body : List Stmt) :
    let origins := originsOfList options.keeps options.maxDepth depth body
    Step.traces (stepsOf options localizer depth body) = origins.map (·.trace localizer) ∧
      (∀ o ∈ origins, o.lacksPart = true →
        ∃ d ∈ diagnose body, d.rule = .missingCondition ∧ d.severity = .error ∧ d.span = o.span) ∧
      (Diagnostic.anyError (diagnose body) = false → ∀ o ∈ origins, o.lacksPart = false) ∧
      ((LintRule.missingCondition.check (Nest.ofStmts body)).map fun d => (d.span, d.severity, d.rule)) =
        (((statementsIn body).filter Stmt.lacksPart).map fun s => (s.span, .error, .missingCondition)) ∧
      (options.importantOnly = false → ∀ d list s, Reached depth body d list → d ≤ options.maxDepth → s ∈ list →
        s.lacksPart = true → ∃ fault, s.fault? = some fault ∧ fault.isMissingPart = true ∧
          ⟨.error, some s.span, d, some (fault.message.localize localizer)⟩ ∈
            Step.traces (stepsOf options localizer depth body)) := by
  intro origins
  have traces := traces_stepsOf options localizer depth body
  have reported : ∀ o ∈ origins, o.lacksPart = true →
      ∃ d ∈ diagnose body, d.rule = .missingCondition ∧ d.severity = .error ∧ d.span = o.span := by
    intro o mem lacks
    cases o with
    | stmt s d =>
      have inside := mem_statementsIn_of_mem_originsOfList mem
      rw [StepOrigin.lacksPart, StepOrigin.fault?, s.any_fault?_isMissingPart] at lacks
      exact exists_diagnostic_of_lacksPart inside lacks
    | deep first last limit d =>
      rw [StepOrigin.lacksPart, StepOrigin.fault?, Option.any_some] at lacks
      contradiction
  refine ⟨traces, reported, ?_, LintRule.map_check_missingCondition body, ?_⟩
  · intro clean o mem
    by_contra lacks
    obtain ⟨d, found, _, severity, _⟩ := reported o mem (by simpa using lacks)
    have error : Diagnostic.anyError (diagnose body) = true :=
      List.any_eq_true.2 ⟨d, found, by rw [Diagnostic.isError, severity]; rfl⟩
    rw [clean] at error
    contradiction
  · intro all d list s reached within member lacks
    obtain ⟨fault, invalid, missing⟩ := Stmt.exists_fault_of_lacksPart lacks
    refine ⟨fault, invalid, missing, ?_⟩
    rw [traces, List.mem_map]
    refine ⟨.stmt s d, ?_, ?_⟩
    · show _ ∈ originsOfList options.keeps options.maxDepth depth body
      rw [StepOptions.keeps_of_all all]
      exact mem_originsOfList_of_reached reached within member invalid
    · have kind : s.stepKind = .error := Stmt.stepKind_eq_error_iff.2 (by rw [invalid, Option.isSome_some])
      rw [StepOrigin.trace_stmt, kind, invalid, Option.map_some]

/-- A loop without a condition, alone in a block: `{ while () ; }`. -/
private def loopInBlock : Stmt := .block [loop] (at_ 0 14)
where
  at_ (start stop : Nat) : Span := ⟨⟨start, 0, start⟩, ⟨stop, 0, stop⟩⟩
  loop : Stmt := .while none (.empty (at_ 11 12)) (at_ 2 12)

/-- The loop is reported and shown as an error; without it there is no error. -/
theorem lacksPart_agrees_loopInBlock :
    (∃ d ∈ diagnose [loopInBlock], d.rule = .missingCondition ∧ d.severity = .error ∧ d.span = loopInBlock.at_ 2 12) ∧
      (∃ fault, loopInBlock.loop.fault? = some fault ∧ fault.isMissingPart = true ∧
        ⟨.error, some (loopInBlock.at_ 2 12), 1, some (fault.message.localize .echo)⟩ ∈
          Step.traces (stepsOf .standard .echo 0 [loopInBlock])) ∧
      ∀ o ∈ originsOfList StepOptions.standard.keeps 64 0 [.empty .none], o.lacksPart = false := by
  obtain ⟨-, reported, -, -, shown⟩ := lacksPart_agrees .standard .echo 0 [loopInBlock]
  have keeps (s : Stmt) : StepOptions.standard.keeps s = true := rfl
  have origin : .stmt loopInBlock.loop 1 ∈ originsOfList StepOptions.standard.keeps 64 0 [loopInBlock] := by
    simp [loopInBlock, loopInBlock.loop, originsOfList, originsOf, keeps, Stmt.fault?]
  have reached : Reached 0 [loopInBlock] 1 [loopInBlock.loop] :=
    .spliced .here (List.mem_singleton_self loopInBlock)
  have clean : diagnose [.empty .none] = [] := by
    simp [diagnose, LintRule.all, LintRule.check, LintRule.emptyConditions, LintRule.deadCode, LintRule.deepStmts,
      LintRule.comfortableDepth, LintRule.missingIn?, LintRule.unreachableIn?, LintRule.afterExit?, LintRule.isExit,
      Nest.ofStmts, Nest.ofStmt, Nest.stmts, Nest.stmtsOfBodies, Nest.lists, Nest.innerLists, Nest.listsOfBodies,
      Nest.beyond, Nest.beyondInBodies, Nest.stmt]
  refine ⟨reported _ origin rfl, ?_, ?_⟩
  · exact shown rfl 1 _ _ reached (by decide) (List.mem_singleton_self _) rfl
  · exact (lacksPart_agrees .standard .echo 0 [.empty .none]).2.2.1 (by rw [clean]; rfl)

end FlowScript
