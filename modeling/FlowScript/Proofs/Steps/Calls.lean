import FlowScript.Proofs.Steps.Importance
import FlowScript.Proofs.Text.OneLine

/-!
# Important calls

Whether the step of a call is important is judged by what is left of the callee where it is cut to its width. A callee
that fits is judged as a whole. Of a longer one a keyword is missed where the text is cut before its end, but none is
made up: no keyword has a blank or an ellipsis in it.
-/

namespace FlowScript

theorem importantKeywords_dark :
    ∀ k ∈ importantKeywords, k.toList ≠ [] ∧ '…' ∉ k.toList ∧ k.toList.all (!Text.isBlank ·) = true := by
  decide +kernel

theorem isImportantCode_normalize (code : String) : isImportantCode (Text.normalize code) = isImportantCode code :=
  Text.containsAny_lower_normalize (fun k mem => (importantKeywords_dark k mem).1)
    (fun k mem c inside => by simpa using List.all_eq_true.1 (importantKeywords_dark k mem).2.2 c inside) code

theorem isImportantCode_oneLine (code : String) (max : Nat) :
    isImportantCode (Text.oneLine code max) = isImportantCode (Text.kept (Text.normalize code) max) :=
  Text.containsAny_lower_truncate (fun k mem => (importantKeywords_dark k mem).1)
    (fun k mem => (importantKeywords_dark k mem).2.1) _ max

/-- What is important in a text that is cut is important where it is cut further behind. -/
theorem isImportantCode_kept_of_le (code : String) {max wider : Nat} (le : max ≤ wider)
    (important : isImportantCode (Text.kept code max) = true) : isImportantCode (Text.kept code wider) = true :=
  isImportantCode_of_partOf (Text.kept_prefix_kept code le).isInfix important

theorem isImportantCode_of_kept (code : String) {max : Nat}
    (important : isImportantCode (Text.kept code max) = true) : isImportantCode code = true :=
  isImportantCode_of_partOf (Text.kept_prefix code max).isInfix important

/-- The label of a call's step, important or not. -/
def StepView.callLabel (v : StepView) (depth : Nat) (callee : Expr) (args : List Expr) (span : Span)
    (important : Bool) : StepLabel :=
  let name := Text.oneLine callee.renderCompact v.options.calleeWidth
  { kind := .call, title := v.localizer (if important then "steps.important_call" else "steps.call") [], depth
    color := if important then .orange else .teal, important, span := some span
    summary := v.summary (name ++ "(…) args=" ++ toString args.length) }

theorem StepView.stepsOf_call (v : StepView) (depth : Nat) {e callee : Expr} {args : List Expr} {optional : Bool}
    {inner : Span} (call : e.unwrapAwait = .call callee args optional inner) (span : Span) :
    (v.stepsOf depth (.expr e span)).value = [.leaf (v.callLabel depth callee args span
      (isImportantCode (Text.kept (Text.normalize callee.renderCompact) v.options.calleeWidth)))] := by
  rw [stepsOf, expression, call, ← isImportantCode_oneLine]
  dsimp only
  generalize isImportantCode (Text.oneLine callee.renderCompact v.options.calleeWidth) = important
  rfl

/-- The step of a call is important, orange and titled so exactly when an important keyword occurs, in capital or small
    letters, in what is left of the callee where it is cut to its width: then one occurs in the whole callee, and in what
    is left at any greater width. Where the whole callee fits, the step is important exactly when a keyword occurs in the
    callee. -/
theorem important_stepsOf_call (full : Text.LowerCase) (options : StepOptions) (localizer : Localizer) (depth : Nat)
    {e callee : Expr} {args : List Expr} {optional : Bool} {inner : Span}
    (call : e.unwrapAwait = .call callee args optional inner) (span : Span) :
    let found (code : String) : Prop := Text.containsAny (full.lower code) importantKeywords = true
    let code := Text.normalize callee.renderCompact
    ∃ label : StepLabel, (StepView.stepsOf ⟨options, localizer⟩ depth (.expr e span)).value = [.leaf label] ∧
      label.kind = .call ∧ label.color = (if label.important then .orange else .teal) ∧
      label.title = localizer (if label.important then "steps.important_call" else "steps.call") [] ∧
      (label.important = true ↔ found (Text.kept code options.calleeWidth)) ∧
      (label.important = true → found callee.renderCompact ∧
        ∀ wider, options.calleeWidth ≤ wider → found (Text.kept code wider)) ∧
      (code.length ≤ options.calleeWidth → (label.important = true ↔ found callee.renderCompact)) := by
  intro found code
  have found_iff (text : String) : found text ↔ isImportantCode text = true := by
    rw [isImportantCode_eq full]
  refine ⟨_, StepView.stepsOf_call _ depth call span, ?_⟩
  simp only [found_iff]
  -- The rest is about the flag alone, whatever it is.
  generalize flag : isImportantCode (Text.kept (Text.normalize callee.renderCompact) options.calleeWidth) = important
  refine ⟨rfl, rfl, rfl, Iff.rfl, ?_, ?_⟩
  · rintro rfl
    refine ⟨?_, fun wider le => isImportantCode_kept_of_le code le flag⟩
    rw [← isImportantCode_normalize]
    exact isImportantCode_of_kept code flag
  · intro fits
    rw [Text.kept_of_le fits, isImportantCode_normalize] at flag
    rw [flag]
    exact Iff.rfl

/-- The call `await (page.Click())` has a step that is important, as `page.Click` fits. -/
theorem important_stepsOf_call_awaited :
    let callee : Expr := .member (.ident "page" .none) "Click" false .none
    (Text.normalize callee.renderCompact).length ≤ StepOptions.standard.calleeWidth ∧
      ∃ label : StepLabel, (StepView.stepsOf ⟨.standard, .echo⟩ 0
          (.expr (.await (.paren (.call callee [] false .none) .none) .none) .none)).value = [.leaf label] ∧
        label.important = true := by
  have fits : (Text.normalize (Expr.member (.ident "page" .none) "Click" false .none).renderCompact).length ≤
      StepOptions.standard.calleeWidth := by decide +kernel
  obtain ⟨label, step, -, -, -, -, -, whole⟩ := important_stepsOf_call default .standard .echo 0
    (e := .await (.paren (.call (.member (.ident "page" .none) "Click" false .none) [] false .none) .none) .none) rfl .none
  exact ⟨fits, label, step, (whole fits).2 (by decide +kernel)⟩

/-- A callee that has a keyword behind 40 other characters. -/
private def farClick : Expr := .member (.ident "aaaaaaaaaaaaaaaaaaaaaaaaaaaaaaaaaaaaaaaa" .none) "click" false .none

/-- The callee has a keyword, but where it is cut to the standard width its call is not important; a width that it fits
    in makes it so. -/
theorem important_depends_on_calleeWidth :
    isImportantCode farClick.renderCompact = true ∧
      (stepsOf .standard .echo 0 [.expr (.call farClick [] false .none) .none]).map (·.label.important) = [false] ∧
      (stepsOf { StepOptions.standard with calleeWidth := 46 } .echo 0
        [.expr (.call farClick [] false .none) .none]).map (·.label.important) = [true] := by
  decide +kernel

end FlowScript
