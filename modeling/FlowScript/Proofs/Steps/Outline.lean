import FlowScript.Proofs.Ast.Bodies
import FlowScript.Proofs.Steps.Shape
import FlowScript.Proofs.Text.Lines
import FlowScript.Steps.Outline

/-!
# The outline has a line for each item

Texts come into steps as code cut to a width, which is one line, as numbers and fixed words, and as names that are
declared. A name that is read from a source is one word. So every text of a step is one line when the localizer makes
one line of such texts, and the lines of the outline are those of the steps.
-/

namespace FlowScript

/-- Messages without line feeds. -/
def Message.Inline (m : Message) : Prop :=
  Text.Inline m.key ∧ ∀ arg ∈ m.args, Text.Inline arg.1 ∧ Text.Inline arg.2

/-- Localizers that put what has no line feed into text that has none. -/
def Localizer.Inline (localizer : Localizer) : Prop := ∀ m : Message, m.Inline → Text.Inline (m.localize localizer)

/-- Labels without line feeds in their texts. -/
structure StepLabel.Inline (l : StepLabel) : Prop where
  title : Text.Inline l.title
  summary : ∀ text, l.summary = some text → Text.Inline text
  message : ∀ text, l.message = some text → Text.Inline text
  detail : ∀ text, l.detail = some text → Text.Inline text

/-- The lines that a step takes in an outline: its title behind two spaces for each level, its message and its detail. -/
def StepLabel.Takes (l : StepLabel) (lines : List String) : Prop :=
  let margin := String.ofList (List.replicate (2 * l.depth) ' ')
  ∃ behind, lines = (margin ++ l.title ++ behind) ::
    ((l.message.toList.map fun message => margin ++ "  ! " ++ message) ++
      l.detail.toList.map fun detail => margin ++ "  > " ++ detail)

/-! ## Messages -/

namespace Message

theorem inline_plain {key : String} (h : Text.Inline key) : (plain key).Inline := ⟨h, nofun⟩

theorem inline_one {key name value : String} (fixed : Text.Inline key ∧ Text.Inline name) (h : Text.Inline value) :
    Message.Inline ⟨key, [(name, value)]⟩ :=
  ⟨fixed.1, by simpa using ⟨fixed.2, h⟩⟩

end Message

theorem Localizer.inline_echo : Localizer.Inline .echo := by
  intro m inline
  refine Text.inline_append.2 ⟨Text.inline_append.2 ⟨Text.inline_append.2 ⟨inline.1, by decide⟩, ?_⟩, by decide⟩
  refine Text.inline_intercalate (by decide) fun part mem => ?_
  obtain ⟨⟨name, value⟩, among, rfl⟩ := List.mem_map.1 mem
  obtain ⟨names, values⟩ := inline.2 _ among
  exact Text.inline_append.2 ⟨Text.inline_append.2 ⟨names, by decide⟩, values⟩

theorem StepFault.inline_title (fault : StepFault) : fault.title.Inline := by
  cases fault <;> exact Message.inline_plain (by decide)

theorem StepFault.inline_message (fault : StepFault) : fault.message.Inline := by
  cases fault with
  | tooDeep limit => exact Message.inline_one (by decide) (Text.inline_toString limit)
  | _ => exact Message.inline_plain (by decide)

theorem Stmt.inline_kindName (s : Stmt) : Text.Inline s.kindName := by
  unfold kindName
  split <;> decide

theorem Stmt.inline_stepTitle (s : Stmt) (important : Bool) : (s.stepTitle important).Inline := by
  cases s with
  | varDecl | ret | ifElse | «for» | forEach | «while» | doWhile | «try» => exact Message.inline_plain (by decide)
  | expr e span =>
    rw [stepTitle]
    split
    · cases important <;> exact Message.inline_plain (by decide)
    · exact Message.inline_plain (by decide)
  | _ => exact Message.inline_one (by decide) (inline_kindName _)

namespace StepView

variable {v : StepView} {depth : Nat} {source : List Char} {body : List Stmt} {s : Stmt}

theorem inline_title_of_mem_labelledSections {title : Message} {inner : List Stmt}
    (mem : (title, inner) ∈ v.labelledSections s) : title.Inline := by
  have catchLabel (param : Option Pattern) : (v.catchLabel param).Inline := by
    cases param with
    | none => exact Message.inline_plain (by decide)
    | some param => exact Message.inline_one (by decide) (Text.inline_oneLine _ _)
  cases s with
  | ifElse test consequent alternate span =>
    rcases List.mem_cons.1 mem with same | later
    · cases same
      exact Message.inline_plain (by decide)
    · obtain ⟨alternate, -, same⟩ := List.mem_map.1 later
      cases same
      exact Message.inline_plain (by decide)
  | «for» | forEach | «while» | doWhile =>
    cases List.mem_singleton.1 mem
    exact Message.inline_plain (by decide)
  | «try» tried handler finalizer span =>
    rcases List.mem_cons.1 mem with same | later
    · cases same
      exact Message.inline_plain (by decide)
    · rcases List.mem_append.1 later with caught | ended
      · obtain ⟨clause, -, same⟩ := List.mem_map.1 caught
        cases same
        exact catchLabel clause.param
      · obtain ⟨finalizer, -, same⟩ := List.mem_map.1 ended
        cases same
        exact Message.inline_plain (by decide)
  | _ => cases mem

/-! ## Outlines of bodies -/

/-- The name that a declaration of a source binds first is one word. -/
theorem inline_briefName {kind : VarKind} {declarations : List Declarator} {span : Span}
    (sound : (Node.stmt (.varDecl kind declarations span)).Everywhere (Node.Sound source)) :
    Text.Inline (briefName declarations) := by
  unfold briefName
  split
  · rename_i name at_ init place rest
    have declared := sound.child (c := .declarator (.mk (.ident name at_) init place))
      (List.mem_map_of_mem (List.mem_cons_self ..))
    have bound := declared.child (c := .pattern (.ident name at_)) (List.mem_cons_self ..)
    exact Text.inline_of_dark (bound.here.named name rfl)
  · decide

theorem inline_of_briefCall? {callee key : String} (found : briefCall? callee = some key) : Text.Inline key := by
  unfold briefCall? at found
  split at found
  · cases found; decide
  · split at found
    · cases found; decide
    · split at found
      · cases found; decide
      · split at found
        · cases found; decide
        · cases found

section
variable (fine : v.localizer.Inline)
include fine

theorem inline_brief (sound : (Node.stmt s).Everywhere (Node.Sound source)) : Text.Inline (v.brief s).value := by
  have code (text : String) : Text.Inline (pure (Text.oneLine text outlineWidth) : Worded String).value := by
    rw [Worded.value_pure]
    exact Text.inline_oneLine text outlineWidth
  have label {key : String} (h : Text.Inline key) : Text.Inline (v.label key).value := fine _ (Message.inline_plain h)
  unfold brief
  cases s with
  | expr e span =>
    cases call : e.unwrapAwait with
    | call callee args optional at_ =>
      simp only [call]
      cases found : briefCall? callee.renderCompact with
      | some key => exact label (inline_of_briefCall? found)
      | none => exact code callee.renderCompact
    | _ =>
      simp only [call]
      exact code e.renderCompact
  | varDecl kind declarations span =>
    simp only [Worded.value_bind, Worded.value_pure]
    exact Text.inline_trimEnd (fine _ (Message.inline_one (by decide) (inline_briefName sound)))
  | ret value span => exact label (by decide)
  | _ => exact code _

theorem inline_briefs (sound : ∀ s ∈ body, (Node.stmt s).Everywhere (Node.Sound source)) :
    ∀ text ∈ (v.briefs body).value, Text.Inline text := by
  induction body with
  | nil => nofun
  | cons s ss ih =>
    obtain ⟨first, later⟩ := List.forall_mem_cons.1 sound
    exact List.forall_mem_cons.2 ⟨inline_brief fine first, ih later⟩

theorem inline_outline (sound : ∀ s ∈ body, (Node.stmt s).Everywhere (Node.Sound source)) :
    Text.Inline (v.outline body).value := by
  have parts := inline_briefs fine fun s (mem : s ∈ body.take outlineLimit) => sound s (List.mem_of_mem_take mem)
  unfold outline
  split
  · exact fine _ (Message.inline_plain (by decide))
  · simp only [Worded.value_bind]
    split
    · refine Text.inline_intercalate (by decide) fun part mem => ?_
      rcases List.mem_append.1 mem with among | more
      · exact parts part among
      · rw [List.mem_singleton.1 more]
        exact fine _ (Message.inline_one (by decide) (Text.inline_toString _))
    · exact Text.inline_intercalate (by decide) parts

theorem inline_detailOf (sound : (Node.stmt s).Everywhere (Node.Sound source)) {text : String}
    (detail : v.detailOf s = some text) : Text.Inline text := by
  have outline {inner : List Stmt} (inside : inner ∈ s.sections) : Text.Inline (v.outline inner).value :=
    inline_outline fine (SoundBody.of_holdsList sound
      (Stmt.holdsList_of_mem_nestedBodies (Stmt.mem_nestedBodies_of_mem_sections inside))).each
  cases s with
  | ifElse test consequent alternate span =>
    cases detail
    cases alternate with
    | none => exact outline (List.mem_cons_self ..)
    | some alternate =>
      have yes : Text.Inline (v.outline consequent.asBody).value := outline (List.mem_cons_self ..)
      have no : Text.Inline (v.outline alternate.asBody).value :=
        outline (List.mem_cons_of_mem _ (List.mem_cons_self ..))
      refine fine _ ⟨show Text.Inline "steps.then_else" by decide, ?_⟩
      exact List.forall_mem_cons.2 ⟨⟨show Text.Inline "then" by decide, yes⟩, List.forall_mem_singleton.2
        ⟨show Text.Inline "else" by decide, no⟩⟩
  | «for» | forEach | «while» | doWhile =>
    cases detail
    exact outline (List.mem_cons_self ..)
  | _ => cases detail

/-! ## Steps -/

theorem inline_faultLabel (fault : StepFault) (span : Span) : (v.faultLabel fault span depth).Inline where
  title := fine _ fault.inline_title
  summary := nofun
  message := by
    rintro _ ⟨⟩
    exact fine _ fault.inline_message
  detail := nofun

theorem Tells.inline {l : StepLabel} (tells : v.Tells depth s l) (sound : (Node.stmt s).Everywhere (Node.Sound source)) :
    l.Inline where
  title := by
    rw [tells.title]
    exact fine _ (s.inline_stepTitle _)
  summary := by
    intro text is
    rcases tells.summary with ⟨code, cut⟩ | ⟨caught, ended, fixed⟩
    · cases cut.symm.trans is
      exact Text.inline_oneLine _ _
    · cases fixed.symm.trans is
      cases caught <;> cases ended <;> decide
  message := by
    rw [tells.message]
    nofun
  detail := by
    intro text is
    rw [tells.detail] at is
    exact inline_detailOf fine sound is

/-- Every step in the view of a sound list has one line in each of its texts. -/
theorem Within.inline {t : Step} (shown : v.Within depth body t) (sound : SoundBody source body) : t.label.Inline := by
  induction shown with
  | deep span _ | invalid => exact inline_faultLabel fine _ _
  | spliced _ among _ ih => exact ih (sound.nested among (List.mem_singleton_self _))
  | valid _ among _ _ tells => exact tells.inline fine (sound.each _ among)
  | part _ _ labelled => exact ⟨fine _ (inline_title_of_mem_labelledSections labelled), nofun, nofun, nofun⟩
  | inside _ among inside _ ih => exact ih (sound.nested among (Stmt.mem_nestedBodies_of_mem_sections inside))

end
end StepView

/-! ## The outline of steps -/

namespace StepLabel

theorem takes_lines (l : StepLabel) : l.Takes l.lines := by
  refine ⟨l.summary.elim "" (": " ++ ·) ++ (if l.important then " [important]" else ""), ?_⟩
  unfold lines indentation
  cases l.summary <;> cases l.message <;> cases l.detail <;> simp [String.append_assoc]

theorem Inline.lines {l : StepLabel} (h : l.Inline) : ∀ line ∈ l.lines, Text.Inline line := by
  have margin : Text.Inline (indentation l.depth) := by
    rw [indentation, Text.inline_ofList]
    intro mem
    have := List.eq_of_mem_replicate mem
    revert this
    decide
  have behind {mark : String} (fixed : Text.Inline mark) {text : String} (h : Text.Inline text) :
      Text.Inline (indentation l.depth ++ mark ++ text) :=
    Text.inline_append.2 ⟨Text.inline_append.2 ⟨margin, fixed⟩, h⟩
  refine List.forall_mem_cons.2 ⟨?_, fun line mem => ?_⟩
  · refine Text.inline_append.2 ⟨Text.inline_append.2 ⟨Text.inline_append.2 ⟨margin, h.title⟩, ?_⟩, ?_⟩
    · cases is : l.summary with
      | none => decide
      | some text => exact Text.inline_append.2 ⟨by decide, h.summary text is⟩
    · cases l.important <;> decide
  · rcases List.mem_append.1 mem with mem | mem
    · cases is : l.message with
      | none => rw [is] at mem; cases mem
      | some text =>
        rw [is] at mem
        rw [List.mem_singleton.1 mem]
        exact behind (by decide) (h.message text is)
    · cases is : l.detail with
      | none => rw [is] at mem; cases mem
      | some text =>
        rw [is] at mem
        rw [List.mem_singleton.1 mem]
        exact behind (by decide) (h.detail text is)

end StepLabel

/-- In the steps of a source that is read, with a localizer that makes one line of texts of one line, every title,
    summary, message and detail is one line. The lines of their outline are those that the steps take in walk order, and
    the last one is ended. -/
theorem outlineOf_one_line_each {source : String} {w : Workflow} (read : parseWorkflow source = .ok w)
    (options : StepOptions) {localizer : Localizer} (inline : localizer.Inline) (depth : Nat) :
    let steps := stepsOf options localizer depth w.body
    (∀ s ∈ Step.walkAll steps, s.label.Inline) ∧
      ∃ taken, List.Forall₂ (fun s lines => s.label.Takes lines) (Step.walkAll steps) taken ∧
        Text.lines (outlineOf steps) = taken.flatten ++ [""] := by
  intro steps
  let v : StepView := ⟨options, localizer⟩
  have all : ∀ s ∈ Step.walkAll steps, s.label.Inline := fun s below =>
    (v.within_of_mem_walkAll depth w.body s below).inline inline (soundBody_of_parse read)
  refine ⟨all, (Step.walkAll steps).map (·.label.lines), ?_, ?_⟩
  · exact List.forall₂_map_right_iff.2 (List.forall₂_same.2 fun s _ => s.label.takes_lines)
  · rw [outlineOf, Text.lines_joinLines, List.flatMap_def]
    intro line mem
    obtain ⟨s, below, mem⟩ := List.mem_flatMap.1 mem
    exact (all s below).lines line mem

set_option maxRecDepth 100000 in
/-- A template of two lines is summed up on one. -/
theorem outlineOf_one_line_each_template :
    ∃ w, parseWorkflow "function workflow() \x7b \x60a\nb\x60 \x7d" = .ok w ∧
      (stepsOf .standard .echo 0 w.body).map (·.label.summary) = [some "\x60a b\x60"] ∧
      (∀ s ∈ Step.walkAll (stepsOf .standard .echo 0 w.body), s.label.Inline) ∧
      ∃ taken, List.Forall₂ (fun s lines => s.label.Takes lines) (Step.walkAll (stepsOf .standard .echo 0 w.body)) taken ∧
        Text.lines (outlineOf (stepsOf .standard .echo 0 w.body)) = taken.flatten ++ [""] := by
  have summaries : (parseWorkflow "function workflow() \x7b \x60a\nb\x60 \x7d").toOption.map
      (fun w => (stepsOf .standard .echo 0 w.body).map (·.label.summary)) = some [some "\x60a b\x60"] := by
    decide +kernel
  obtain ⟨w, read, summaries⟩ := exists_of_toOption_map summaries
  exact ⟨w, read, summaries, outlineOf_one_line_each read .standard Localizer.inline_echo 0⟩

end FlowScript
