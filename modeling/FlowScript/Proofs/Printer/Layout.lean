import FlowScript.Printer.Render
import FlowScript.Proofs.Printer.Agreement
import FlowScript.Proofs.Text.Reflow

/-!
# Code in all styles

A style decides where lines break and how far they are indented, and nothing else: the code of a tree in one style is
that in any other with its breaks set anew (`ReflowOf`). A sign looks at the front of its operand's code, where no style
sets a break. So all styles print the same words.
-/

namespace FlowScript
open Text (Reflowed ReflowOf)

/-! ## What a style decides -/

namespace CodeStyle

/-- A line break is a run of blanks in every style. -/
theorem newline_reflow (s t : CodeStyle) (i j : Nat) : ReflowOf (s.newline i) (t.newline j) := by
  have indentation (k : Nat) : ∀ d ∈ (String.join (List.replicate k "  ")).toList, Text.isBlank d = true := by
    intro d mem
    rw [String.toList_join, List.mem_flatMap] at mem
    obtain ⟨part, two, inside⟩ := mem
    rw [List.eq_of_mem_replicate two] at inside
    obtain rfl : d = ' ' := by simpa using inside
    exact Text.isBlank_space
  have shape (u : CodeStyle) (k : Nat) :
      ∃ c cs, (u.newline k).toList = c :: cs ∧ ∀ d ∈ c :: cs, Text.isBlank d = true := by
    unfold newline
    split
    · exact ⟨' ', [], rfl, by simp⟩
    · refine ⟨'\n', _, by rw [String.toList_append]; rfl, List.forall_mem_cons.2 ⟨by decide, indentation k⟩⟩
  obtain ⟨c, cs, left, blankLeft⟩ := shape s i
  obtain ⟨d, ds, right, blankRight⟩ := shape t j
  rw [ReflowOf, left, right]
  simpa using Reflowed.break blankLeft blankRight .nil

end CodeStyle

/-- A sign looks only at whether its operand begins with the same sign. -/
theorem signed_reflow {sign : Char} (dark : Text.isBlank sign = false) {a b : String} (h : ReflowOf a b) :
    ReflowOf (signed (String.singleton sign) a) (signed (String.singleton sign) b) := by
  have same : (String.singleton sign).toList.isPrefixOf a.toList = (String.singleton sign).toList.isPrefixOf b.toList := by
    rw [Bool.eq_iff_iff, List.isPrefixOf_iff_prefix, List.isPrefixOf_iff_prefix, String.toList_singleton]
    exact h.prefix_iff dark
  unfold signed
  rw [same]
  split
  · exact ReflowOf.refl.append h
  · exact ReflowOf.refl.append h

theorem UnaryOp.before_reflow (op : UnaryOp) {a b : String} (h : ReflowOf a b) :
    ReflowOf (op.before a) (op.before b) := by
  cases op with
  | plus =>
    have dark : Text.isBlank '+' = false := by decide
    exact signed_reflow dark h
  | minus =>
    have dark : Text.isBlank '-' = false := by decide
    exact signed_reflow dark h
  | _ => exact ReflowOf.refl.append h

/-- The text before a member of an object literal is a run of blanks in every style. -/
theorem Printer.objectBreak_reflow (p q : Printer) (i j : Nat) : ReflowOf (p.objectBreak i) (q.objectBreak j) := by
  have space : " " = CodeStyle.oneLine.newline 0 := rfl
  unfold objectBreak
  split <;> split
  · exact CodeStyle.newline_reflow p.style q.style i j
  · exact CodeStyle.newline_reflow p.style .oneLine i 0
  · exact CodeStyle.newline_reflow .oneLine q.style 0 j
  · exact .refl

/-- The codes of a tree in two styles are reflows of each other. -/
def Printer.reflowing (words : BinaryOp → Option String) (s t : CodeStyle) : Agreement ⟨s, words⟩ ⟨t, words⟩ where
  Rel := ReflowOf
  refl _ := .refl
  append front back := front.append back
  newline := s.newline_reflow t
  objectBreak := objectBreak_reflow _ _
  before op _ _ operand := op.before_reflow operand
  operator _ := rfl

/-! ## Rendering -/

/-- Two attempts to render that both fail, or give texts with the same words, which look alike on one line. -/
def RenderedAlike (r r' : Except RenderError String) : Prop :=
  (r = .error .tooDeep ∧ r' = .error .tooDeep) ∨
    ∃ a b, r = .ok a ∧ r' = .ok b ∧ Text.words a.toList = Text.words b.toList ∧
      ∀ max, Text.oneLine a max = Text.oneLine b max

/-- Whether a tree fits does not depend on its style, so reflowed texts are rendered alike. -/
theorem renderedAlike_renderIf (fits : Bool) {a b : String} (h : ReflowOf a b) :
    RenderedAlike (renderIf fits a) (renderIf fits b) := by
  cases fits with
  | true => exact .inr ⟨a, b, rfl, rfl, h.words_eq, h.oneLine_eq⟩
  | false => exact .inl ⟨rfl, rfl⟩

/-- A tree is rendered in one style exactly when it is in any other, with the same words. -/
theorem tryRender_alike_in_styles (s t : CodeStyle) :
    (∀ x : Stmt, RenderedAlike (x.tryRender s) (x.tryRender t)) ∧
      (∀ e : Expr, RenderedAlike (e.tryRender s) (e.tryRender t)) ∧
      ∀ p : Pattern, RenderedAlike (p.tryRender s) (p.tryRender t) :=
  ⟨fun x => renderedAlike_renderIf _ (x.print_agree (Printer.reflowing _ s t) 0 0),
    fun e => renderedAlike_renderIf _ (e.print_agree (Printer.reflowing _ s t) 0 0),
    fun p => renderedAlike_renderIf _ (p.print_agree (Printer.reflowing _ s t) 0 0)⟩

end FlowScript
