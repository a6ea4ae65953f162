import FlowScript.Parse.Nesting
import Mathlib.Algebra.Order.Group.Nat

/-!
# The weight of what is open

The weight grows by one at most with each token, and only with an opening bracket, a word whose statement may stand
without one, a `?` or an arrow. It is never less than the number of open brackets. So a source is refused if more
brackets than the limit are open at once, and only if it has more than so many tokens of these kinds.
-/

namespace FlowScript.Nesting

/-- Whether a token may add to the weight. -/
def TokenKind.raises : TokenKind → Bool
  | .word chars => chainWords.contains chars
  | .opening | .question | .arrow => true
  | _ => false

/-- How many brackets are open after one more token: a closing bracket closes the last that was opened, and none if
    none is open. -/
def TokenKind.openAfter (n : Nat) : TokenKind → Nat
  | .opening => n + 1
  | .closing _ => n - 1
  | _ => n

/-- How many brackets are open after some tokens. -/
def openBrackets (tokens : List Token) : Nat := tokens.foldl (fun n t => t.kind.openAfter n) 0

namespace State

/-- What is open after tokens of some kinds. -/
def afterKinds (s : State) (kinds : List TokenKind) : State := kinds.foldl step s

/-- What is open after some tokens. -/
def after (s : State) (tokens : List Token) : State := s.afterKinds (tokens.map Token.kind)

/-- Whether the weight stays within the limit with each token. -/
def Within : State → List TokenKind → Prop
  | _, [] => True
  | s, kind :: kinds => (s.step kind).weight ≤ limit ∧ (s.step kind).Within kinds

theorem after_cons (s : State) (t : Token) (ts : List Token) :
    s.after (t :: ts) = (s.step t.kind).after ts := rfl

/-! ## One token -/

theorem length_levels_step (s : State) (kind : TokenKind) :
    (s.step kind).levels.length = kind.openAfter s.levels.length := by
  cases kind with
  | closing brace =>
    rw [step, TokenKind.openAfter]
    cases levels : s.levels <;> simp
  | _ => simp [step, TokenKind.openAfter]

theorem weight_step_le (s : State) (kind : TokenKind) :
    (s.step kind).weight ≤ s.weight + if kind.raises then 1 else 0 := by
  cases kind with
  | word chars =>
    have ended : (if endsBefore s.boundary chars then 0 else s.chain) ≤ s.chain := by split <;> omega
    cases nests : chainWords.contains chars with
    | true =>
      simp only [step, weight, TokenKind.raises, nests, if_true]
      omega
    | false =>
      simp only [step, weight, TokenKind.raises, nests, Bool.false_eq_true, if_false]
      omega
  | closing brace =>
    rw [step]
    cases levels : s.levels with
    | nil => simp [weight, levels, TokenKind.raises]
    | cons outer rest =>
      simp only [weight, levels, List.length_cons, List.foldr_cons, TokenKind.raises]
      omega
  | opening =>
    simp only [step, weight, List.length_cons, List.foldr_cons, TokenKind.raises, if_true]
    omega
  | question | arrow =>
    simp only [step, weight, TokenKind.raises, if_true]
    omega
  | semicolon | lineBreak | other => exact Nat.le_add_right _ _

theorem length_levels_le_weight (s : State) : s.levels.length ≤ s.weight := by
  simp only [weight]
  omega

/-! ## All tokens -/

theorem length_levels_after (s : State) (ts : List Token) :
    (s.after ts).levels.length = ts.foldl (fun n t => t.kind.openAfter n) s.levels.length := by
  induction ts generalizing s with
  | nil => rfl
  | cons t ts ih => rw [after_cons, ih, List.foldl_cons, length_levels_step]

/-- The brackets that are open are as many as the levels that are kept. -/
theorem openBrackets_eq (ts : List Token) : openBrackets ts = (start.after ts).levels.length :=
  (length_levels_after start ts).symm

theorem weight_after_le (s : State) (ts : List Token) :
    (s.after ts).weight ≤ s.weight + ts.countP fun t => t.kind.raises := by
  induction ts generalizing s with
  | nil => exact Nat.le_refl _
  | cons t ts ih =>
    have first := weight_step_le s t.kind
    have rest := ih (s.step t.kind)
    rw [after_cons, List.countP_cons]
    omega

theorem within_append (s : State) (ks ls : List TokenKind) :
    s.Within (ks ++ ls) ↔ s.Within ks ∧ (s.afterKinds ks).Within ls := by
  induction ks generalizing s with
  | nil => exact (iff_of_eq (true_and _)).symm
  | cons k ks ih => rw [List.cons_append, Within, Within, ih, and_assoc]; rfl

theorem Within.weight_le {s : State} {ks : List TokenKind} (h : s.Within ks) (low : s.weight ≤ limit) :
    (s.afterKinds ks).weight ≤ limit := by
  induction ks generalizing s with
  | nil => exact low
  | cons k ks ih => exact ih h.2 h.1

end State

/-! ## The first token beyond the limit -/

theorem tooDeepFrom_eq_none_iff {s : State} {ts : List Token} :
    tooDeepFrom s ts = none ↔ s.Within (ts.map Token.kind) := by
  induction ts generalizing s with
  | nil => exact iff_of_true rfl trivial
  | cons t ts ih =>
    rw [tooDeepFrom, List.map_cons, State.Within]
    split
    · rename_i deep
      exact iff_of_false nofun fun within => Nat.not_lt.2 within.1 deep
    · rename_i low
      rw [ih, and_iff_right (Nat.le_of_not_lt low)]

theorem tooDeepFrom_eq_some_iff {s : State} {ts : List Token} {t : Token} :
    tooDeepFrom s ts = some t ↔ ∃ before rest, ts = before ++ t :: rest ∧ s.Within (before.map Token.kind) ∧
      limit < (s.after (before ++ [t])).weight := by
  induction ts generalizing s with
  | nil => simp [tooDeepFrom]
  | cons u us ih =>
    rw [tooDeepFrom]
    split
    · rename_i deep
      constructor
      · intro found
        cases found
        exact ⟨[], us, rfl, trivial, deep⟩
      · rintro ⟨before, rest, whole, within, -⟩
        cases before with
        | nil => rw [(List.cons.inj whole).1]
        | cons v vs =>
          obtain ⟨rfl, -⟩ := List.cons.inj whole
          exact absurd deep (Nat.not_lt.2 within.1)
    · rename_i low
      rw [ih]
      constructor
      · rintro ⟨before, rest, rfl, within, deep⟩
        exact ⟨u :: before, rest, rfl, ⟨Nat.le_of_not_lt low, within⟩, deep⟩
      · rintro ⟨before, rest, whole, within, deep⟩
        cases before with
        | nil =>
          obtain ⟨rfl, -⟩ := List.cons.inj whole
          exact absurd deep low
        | cons v vs =>
          obtain ⟨rfl, rfl⟩ := List.cons.inj whole
          exact ⟨vs, rest, rfl, within.2, deep⟩

/-- A source is refused where more brackets than the limit are open at once. -/
theorem tooDeep?_ne_none_of_openBrackets {source : List Char} {ts : List Token} (first : ts <+: tokens source)
    (many : limit < openBrackets ts) : tooDeep? source ≠ none := by
  intro accepted
  obtain ⟨rest, whole⟩ := first
  have within := tooDeepFrom_eq_none_iff.1 accepted
  rw [← whole, List.map_append, State.within_append] at within
  have low : (State.start.after ts).weight ≤ limit := within.1.weight_le (Nat.zero_le _)
  have := State.length_levels_le_weight (State.start.after ts)
  rw [State.openBrackets_eq] at many
  omega

/-- A source is refused only if it has more tokens that raise the weight than the limit. -/
theorem lt_countP_raises_of_tooDeep? {source : List Char} {t : Token} (refused : tooDeep? source = some t) :
    limit < (tokens source).countP fun t => t.kind.raises := by
  obtain ⟨before, rest, whole, -, deep⟩ := tooDeepFrom_eq_some_iff.1 refused
  have low := State.weight_after_le .start (before ++ [t])
  have none_ : State.start.weight = 0 := rfl
  have fewer : (before ++ [t]).countP (fun t => t.kind.raises) ≤ (tokens source).countP fun t => t.kind.raises := by
    rw [whole]
    exact List.Sublist.countP_le (by simp)
  omega

end FlowScript.Nesting
