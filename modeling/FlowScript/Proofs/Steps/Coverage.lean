import FlowScript.Proofs.Steps.Invariants

/-!
# The steps view shows every origin once

A step is read by its trace: its kind, where it comes from, its depth, and the error it reports. The steps of a list,
branches and bodies left out, bear the traces of the origins of the list, in this order. In a view of all statements
these are the entries of the list.
-/

namespace FlowScript

/-- What a step says of the source: its span and depth, and whether and why it is an error. -/
structure StepMark where
  span : Option Span
  depth : Nat
  isError : Bool
  message : Option String
deriving DecidableEq

def StepLabel.mark (label : StepLabel) : StepMark := ⟨label.span, label.depth, label.kind = .error, label.message⟩

/-- The mark of a step that shows the entry. -/
def StepEntry.mark (localizer : Localizer) (e : StepEntry) : StepMark :=
  ⟨some e.span, e.depth, e.fault.isSome, e.fault.map (·.message.localize localizer)⟩

/-- The marks of steps and of everything below them, in walk order; branches, bodies and handlers bear none. -/
def Step.marks (steps : List Step) : List StepMark :=
  (((walkAll steps).map label).filter (·.kind ≠ .block)).map StepLabel.mark

/-- What a step says of the source: its kind, its span and depth, and the message of an error. -/
structure StepTrace where
  kind : StepKind
  span : Option Span
  depth : Nat
  message : Option String
deriving DecidableEq

def StepLabel.trace (label : StepLabel) : StepTrace := ⟨label.kind, label.span, label.depth, label.message⟩

/-- The trace of a step that has the origin. -/
def StepOrigin.trace (localizer : Localizer) (o : StepOrigin) : StepTrace :=
  ⟨o.kind, some o.span, o.depth, o.fault?.map (·.message.localize localizer)⟩

@[simp] theorem StepOrigin.trace_stmt (localizer : Localizer) (s : Stmt) (depth : Nat) :
    (stmt s depth).trace localizer =
      ⟨s.stepKind, some s.span, depth, s.fault?.map (·.message.localize localizer)⟩ := rfl

@[simp] theorem StepOrigin.trace_deep (localizer : Localizer) (first last : Stmt) (limit depth : Nat) :
    (deep first last limit depth).trace localizer =
      ⟨.error, some (first.span.merge last.span), depth, some ((StepFault.tooDeep limit).message.localize localizer)⟩ :=
  rfl

/-- The traces of steps and of everything below them, in walk order; branches, bodies and handlers bear none. -/
def Step.traces (steps : List Step) : List StepTrace :=
  (((walkAll steps).map label).filter (·.kind ≠ .block)).map StepLabel.trace

/-- Whether a view with the options shows the statement in a list. -/
def StepOptions.keeps (o : StepOptions) (s : Stmt) : Bool := !o.importantOnly || s.isImportant

theorem StepOptions.keeps_of_all {o : StepOptions} (all : o.importantOnly = false) : o.keeps = fun _ => true := by
  funext s
  rw [keeps, all, Bool.not_false, Bool.true_or]

theorem StepOptions.keeps_of_importantOnly {o : StepOptions} (only : o.importantOnly = true) :
    o.keeps = Stmt.isImportant := by
  funext s
  rw [keeps, only, Bool.not_true, Bool.false_or]

namespace Step

@[simp] theorem traces_nil : traces [] = [] := rfl

theorem walkAll_append (left right : List Step) : walkAll (left ++ right) = walkAll left ++ walkAll right := by
  simp only [walkAll_eq_flatMap, List.flatMap_append]

@[simp] theorem traces_append (left right : List Step) : traces (left ++ right) = traces left ++ traces right := by
  simp [traces, walkAll_append]

theorem traces_cons_of_block {l : StepLabel} (children rest : List Step) (block : l.kind = .block) :
    traces (.mk l children :: rest) = traces children ++ traces rest := by
  simp [traces, walkAll, walk, label, block]

theorem traces_cons_of_ne {l : StepLabel} (children rest : List Step) (visible : l.kind ≠ .block) :
    traces (.mk l children :: rest) = l.trace :: (traces children ++ traces rest) := by
  simp [traces, walkAll, walk, label, visible]

@[simp] theorem traces_leaf (l : StepLabel) (visible : l.kind ≠ .block) : traces [leaf l] = [l.trace] :=
  traces_cons_of_ne [] [] visible

end Step

namespace StepView

variable {v : StepView} {depth : Nat} {s : Stmt} {body : List Stmt}

/-- The steps bear the traces of the origins. -/
def Shows (v : StepView) (steps : Worded (List Step)) (origins : List StepOrigin) : Prop :=
  Step.traces steps.value = origins.map (·.trace v.localizer)

theorem Shows.nil : v.Shows (pure []) [] := rfl

/-- A list shown within the limit shows those of its statements that are kept, and one below the limit is one error. -/
theorem shows_bounded {steps : Worded (List Step)}
    (each : v.Shows steps ((body.filter v.options.keeps).flatMap (originsOf v.options.keeps v.options.maxDepth depth))) :
    v.Shows (v.bounded depth body steps) (originsOfList v.options.keeps v.options.maxDepth depth body) := by
  unfold bounded
  split
  · rename_i below
    rw [originsOfList_of_lt _ body below, StepOrigin.ofList]
    cases body.head? with
    | none => exact .nil
    | some first =>
      cases body.getLast? with
      | none => exact .nil
      | some last =>
        simp [Shows, faulty, say, StepLabel.trace]
  · rename_i within
    rw [originsOfList_of_le _ body (Nat.le_of_not_lt within)]
    exact each

/-- A list shows a statement first if it keeps it, then the others. -/
theorem shows_shown {l : List Stmt} {first rest : Worded (List Step)} {f : Stmt → List StepOrigin}
    (one : v.Shows first (f s)) (others : v.Shows rest ((l.filter v.options.keeps).flatMap f)) :
    v.Shows (do return (← v.shown s first) ++ (← rest)) (((s :: l).filter v.options.keeps).flatMap f) := by
  have one : Step.traces _ = _ := one
  have others : Step.traces _ = _ := others
  by_cases kept : v.options.keeps s = true
  · have shown : v.shown s first = first := by
      simp [StepOptions.keeps] at kept
      rcases kept with all | important
      · simp [StepView.shown, all]
      · simp [StepView.shown, important]
    simp [Shows, shown, kept, one, others]
  · have hidden : v.shown s first = pure [] := by
      simp [StepOptions.keeps] at kept
      simp [StepView.shown, kept]
    simp [Shows, hidden, kept, others]

/-- A section shows what is in it, and has no trace of its own. -/
theorem traces_sectionSteps (v : StepView) (depth : Nat) (s : Stmt) :
    Step.traces (v.sectionSteps depth s) =
      s.sections.flatMap fun inner => Step.traces (v.steps (depth + 2) inner).value := by
  rw [sectionSteps, ← map_snd_labelledSections v, List.flatMap_map]
  induction v.labelledSections s with
  | nil => rfl
  | cons part parts ih =>
    rw [List.map_cons, Step.traces_cons_of_block _ _ rfl, ih]
    rfl

/-- The steps of a statement bear the traces of its origins if those of the lists in it do. -/
theorem shows_stepsOf
    (spliced : ∀ inner span, s = .block inner span →
      v.Shows (v.steps (depth + 1) inner) (originsOfList v.options.keeps v.options.maxDepth (depth + 1) inner))
    (shown : ∀ inner ∈ s.sections,
      v.Shows (v.steps (depth + 2) inner) (originsOfList v.options.keeps v.options.maxDepth (depth + 2) inner)) :
    v.Shows (v.stepsOf depth s) (originsOf v.options.keeps v.options.maxDepth depth s) := by
  rcases s.block_or_fault_or_valid with ⟨inner, span, rfl⟩ | ⟨fault, invalid⟩ | ⟨other, valid⟩
  · rw [value_stepsOf_block, originsOf_block]
    exact spliced inner span rfl
  · rw [Shows, value_stepsOf_of_fault invalid, originsOf_of_fault _ _ _ invalid, Step.traces_leaf _ (by simp [faultLabel])]
    simp [StepLabel.trace, faultLabel, invalid, Stmt.stepKind]
  · obtain ⟨l, is, tells⟩ := exists_tells v depth other valid
    have visible : l.kind ≠ .block := tells.kind ▸ Stmt.stepKind_ne_block other
    have own : l.trace = (StepOrigin.stmt s depth).trace v.localizer := by
      rw [StepLabel.trace, tells.kind, tells.span, tells.depth, tells.message, StepOrigin.trace_stmt, valid]
      rfl
    rw [Shows, is, originsOf_of_valid _ _ _ other valid, Step.traces_cons_of_ne _ _ visible, own, traces_sectionSteps,
      List.map_cons, List.map_flatMap, Step.traces_nil, List.append_nil, List.flatMap_congr shown]

theorem shows_stepsOfList
    (each : ∀ s ∈ body, v.Shows (v.stepsOf depth s) (originsOf v.options.keeps v.options.maxDepth depth s)) :
    v.Shows (v.stepsOfList depth body)
      ((body.filter v.options.keeps).flatMap (originsOf v.options.keeps v.options.maxDepth depth)) := by
  induction body with
  | nil => exact .nil
  | cons s ss ih =>
    obtain ⟨first, later⟩ := List.forall_mem_cons.1 each
    exact shows_shown first (ih later)

/-- The steps of a list bear the traces of the origins of the list. -/
theorem shows_steps (v : StepView) (depth : Nat) (body : List Stmt) :
    v.Shows (v.steps depth body) (originsOfList v.options.keeps v.options.maxDepth depth body) := by
  induction depth, body using reached_induction with
  | list depth body spliced shown =>
    refine shows_bounded (shows_stepsOfList fun s member => shows_stepsOf ?_ (shown s member))
    rintro inner span rfl
    exact spliced inner span member

end StepView

/-- The steps of a list bear in walk order the traces of the list's origins. -/
theorem traces_stepsOf (options : StepOptions) (localizer : Localizer) (depth : Nat) (body : List Stmt) :
    Step.traces (stepsOf options localizer depth body) =
      (originsOfList options.keeps options.maxDepth depth body).map (·.trace localizer) :=
  StepView.shows_steps ⟨options, localizer⟩ depth body

/-! ## Marks -/

/-- The mark of a step is its trace without the kind. -/
def StepTrace.mark (t : StepTrace) : StepMark := ⟨t.span, t.depth, t.kind = .error, t.message⟩

theorem StepOrigin.mark_trace (localizer : Localizer) (o : StepOrigin) :
    (o.trace localizer).mark = o.entry.mark localizer := by
  cases o with
  | stmt s depth =>
    simp [StepTrace.mark, trace, StepEntry.mark, entry, kind, fault?, Stmt.stepKind_eq_error_iff]
  | deep first last limit depth => rfl

theorem Step.marks_eq (steps : List Step) : marks steps = (traces steps).map StepTrace.mark := by
  rw [traces, List.map_map]
  rfl

theorem Step.exists_of_mem_marks {steps : List Step} {mark : StepMark} (mem : mark ∈ marks steps) :
    ∃ s ∈ walkAll steps, mark = s.label.mark := by
  obtain ⟨l, labelled, rfl⟩ := List.mem_map.1 mem
  obtain ⟨s, below, rfl⟩ := List.mem_map.1 (List.mem_filter.1 labelled).1
  exact ⟨s, below, rfl⟩

/-- In a view of all statements, the steps of a list bear in walk order the marks of the list's entries: every visible
    statement once, and one error for each list below the limit that is not empty. All depths are sizes if those that
    bound them are. If no list below the limit is reached, these are just the visible statements. -/
theorem marks_stepsOf (options : StepOptions) (localizer : Localizer) (depth : Nat) (body : List Stmt)
    (all : options.importantOnly = false) :
    (options.Sized depth →
        Step.marks (stepsOf options localizer depth body) =
            (entriesOfList (some options.maxDepth) depth body).map (·.mark localizer) ∧
          ∀ mark ∈ Step.marks (stepsOf options localizer depth body), mark.depth ≤ Json.maxSize) ∧
      ((∀ d list, Reached depth body d list → d ≤ options.maxDepth) →
        Step.marks (stepsOf options localizer depth body) = (visibleStatements depth body).map (·.mark localizer)) := by
  have entries : Step.marks (stepsOf options localizer depth body) =
      (entriesOfList (some options.maxDepth) depth body).map (·.mark localizer) := by
    rw [Step.marks_eq, traces_stepsOf, StepOptions.keeps_of_all all, ← map_entry_originsOfList, List.map_map, List.map_map]
    exact List.map_congr_left fun o _ => o.mark_trace localizer
  refine ⟨fun sized => ⟨entries, fun mark mem => ?_⟩, fun within => ?_⟩
  · obtain ⟨s, below, rfl⟩ := Step.exists_of_mem_marks mem
    exact StepView.depth_le_maxSize ⟨options, localizer⟩ body sized s below
  · rw [entries, entriesOfList_eq_visibleStatements within]

/-- A block around `if (this) ;`, then a loop without a condition: `{ if (this) ; } while () ;`. -/
private def blockThenLoop : List Stmt :=
  [.block [.ifElse (some (.this (at_ 6 10))) (.empty (at_ 12 13)) none (at_ 2 13)] (at_ 0 15),
    .while none (.empty (at_ 25 26)) (at_ 16 26)]
where at_ (start stop : Nat) : Span := ⟨⟨start, 0, start⟩, ⟨stop, 0, stop⟩⟩

/-- At the limit 0 the block is one error, and at the standard limit all of it is shown. -/
theorem marks_stepsOf_blockThenLoop :
    Step.marks (stepsOf { StepOptions.standard with maxDepth := 0 } .echo 0 blockThenLoop) =
        [⟨some (blockThenLoop.at_ 2 13), 1, true, some "steps.too_deep_message[limit=0]"⟩,
          ⟨some (blockThenLoop.at_ 16 26), 0, true, some "steps.missing_loop_test[]"⟩] ∧
      Step.marks (stepsOf .standard .echo 0 blockThenLoop) =
        [⟨some (blockThenLoop.at_ 2 13), 1, false, none⟩, ⟨some (blockThenLoop.at_ 12 13), 3, false, none⟩,
          ⟨some (blockThenLoop.at_ 16 26), 0, true, some "steps.missing_loop_test[]"⟩] := by
  have shallow (d : Nat) (list : List Stmt) (reached : Reached 0 blockThenLoop d list) :
      (d = 0 ∧ list = blockThenLoop) ∨ (d = 1 ∧ ∃ s, list = [s] ∧ s.sections = [[.empty (blockThenLoop.at_ 12 13)]]) ∨
        (d = 3 ∧ list = [.empty (blockThenLoop.at_ 12 13)]) := by
    induction reached with
    | here => exact .inl ⟨rfl, rfl⟩
    | spliced _ member ih =>
      rcases ih with ⟨rfl, rfl⟩ | ⟨rfl, s, rfl, sections⟩ | ⟨rfl, rfl⟩
      · simp_all [blockThenLoop, Stmt.sections, Stmt.asBody]
      · simp_all
        subst member
        simp [Stmt.sections] at sections
      · simp_all
    | shown _ member valid inside ih =>
      rcases ih with ⟨rfl, rfl⟩ | ⟨rfl, s, rfl, sections⟩ | ⟨rfl, rfl⟩
      · simp_all [blockThenLoop, Stmt.sections, Stmt.asBody]
        rcases member with rfl | rfl
        · simp at inside
        · simp [Stmt.fault?] at valid
      · simp_all
      · simp_all [Stmt.sections]
  have within (d : Nat) (list : List Stmt) (reached : Reached 0 blockThenLoop d list) :
      d ≤ StepOptions.standard.maxDepth := by
    have : StepOptions.standard.maxDepth = 64 := rfl
    rcases shallow d list reached with ⟨rfl, _⟩ | ⟨rfl, _⟩ | ⟨rfl, _⟩ <;> omega
  constructor
  · rw [((marks_stepsOf { StepOptions.standard with maxDepth := 0 } .echo 0 blockThenLoop rfl).1 (by decide)).1]
    simp [blockThenLoop, entriesOfList, entriesOf, entryForAll, Stmt.fault?, StepEntry.mark, Stmt.span, Option.filter]
    decide
  · rw [(marks_stepsOf .standard .echo 0 blockThenLoop rfl).2 within]
    simp [visibleStatements, blockThenLoop, entriesOfList, entriesOf, Stmt.fault?, Stmt.sections, Stmt.asBody,
      StepEntry.mark, Stmt.span]
    decide

end FlowScript
