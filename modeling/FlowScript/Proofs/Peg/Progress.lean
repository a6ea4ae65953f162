import FlowScript.Proofs.Peg.Course

/-!
# Matching comes to an end

A grammar is ranked when a call of a rule goes inwards only so far before a character is taken, and no repetition goes
round on nothing. Then the rank of an expression, with so much for each character that is left, is fuel enough: the run
has an answer, and a parse without a tree stands for a text that the rule does not match.
-/

namespace FlowScript.Peg
open FlowScript.Peg.Grammar (between)

variable {ρ : Type} {g : Grammar ρ}

/-- Whether an expression may match without taking a character, given which rules may. -/
def mayBeEmpty (empty : ρ → Bool) : Peg ρ → Bool
  | .text chars => chars.isEmpty
  | .char _ => false
  | .inputEnd | .opt _ | .star _ | .more _ | .ahead _ | .notAhead _ => true
  | .call r => empty r
  | .seq a b => a.mayBeEmpty empty && b.mayBeEmpty empty
  | .alt a b => a.mayBeEmpty empty || b.mayBeEmpty empty

/-- How far matching an expression goes inwards before a character is taken, given how far the rules go. -/
def rank (empty : ρ → Bool) (ranks : ρ → Nat) : Peg ρ → Nat
  | .text _ | .char _ | .inputEnd => 1
  | .call r => ranks r + 1
  | .seq a b => max (a.rank empty ranks) (if a.mayBeEmpty empty then b.rank empty ranks else 0) + 1
  | .alt a b => max (a.rank empty ranks) (b.rank empty ranks) + 1
  | .opt a | .star a | .more a | .ahead a | .notAhead a => a.rank empty ranks + 1

/-- Whether what comes after a character goes no further than `bound`, and every round of a repetition takes one. -/
def paced (empty : ρ → Bool) (ranks : ρ → Nat) (bound : Nat) : Peg ρ → Bool
  | .text _ | .char _ | .inputEnd | .call _ => true
  | .seq a b =>
    a.paced empty ranks bound && b.paced empty ranks bound && decide (b.rank empty ranks ≤ bound)
  | .alt a b => a.paced empty ranks bound && b.paced empty ranks bound
  | .opt a | .ahead a | .notAhead a => a.paced empty ranks bound
  | .star a | .more a =>
    a.paced empty ranks bound && !a.mayBeEmpty empty && decide (a.rank empty ranks + 1 ≤ bound)

/-- A grammar whose rules come to a character in a bounded number of steps inwards. -/
structure Grammar.Ranked (g : Grammar ρ) (empty : ρ → Bool) (ranks : ρ → Nat) (bound : Nat) : Prop where
  empty_body {r : ρ} (nothing : (g.body r).mayBeEmpty empty = true) : empty r = true
  rank_body (r : ρ) : (g.body r).rank empty ranks ≤ ranks r
  paced_body (r : ρ) : (g.body r).paced empty ranks bound = true

theorem rank_pos (empty : ρ → Bool) (ranks : ρ → Nat) (e : Peg ρ) : 0 < e.rank empty ranks := by
  cases e <;> simp [rank]

/-! ## Taking characters -/

theorem Cursor.Reaches.length_eq {c c' : Cursor} {text : List Char} (h : c.Reaches text c') :
    c.rest.length = text.length + c'.rest.length := by
  rw [h.rest, List.length_append]

namespace Matches

/-- A match never goes back. -/
theorem length_le (wf : g.WellFormed) {e : Peg ρ} {x : Texture} {c c' : Cursor} {ts : List (Derivation ρ)}
    (h : Matches g e x c (some (ts, c'))) : c'.rest.length ≤ c.rest.length := by
  obtain ⟨text, read⟩ := (h.chain wf).reaches
  have := read.length_eq
  omega

theorem between_length_le (wf : g.WellFormed) (x : Texture) (c : Cursor) :
    (between g x c).rest.length ≤ c.rest.length := by
  obtain ⟨text, read⟩ := between_reaches wf x c
  have := read.length_eq
  omega

/-- An expression that cannot be empty takes a character. -/
theorem length_lt (wf : g.WellFormed) {empty : ρ → Bool} {ranks : ρ → Nat} {bound : Nat}
    (ranked : g.Ranked empty ranks bound) {e : Peg ρ} {x : Texture} {c c' : Cursor} {ts : List (Derivation ρ)}
    (h : Matches g e x c (some (ts, c'))) (takes : e.mayBeEmpty empty = false) :
    c'.rest.length < c.rest.length := by
  have body_takes : ∀ {r : ρ}, empty r = false → (g.body r).mayBeEmpty empty = false := by
    intro r takes
    rw [Bool.eq_false_iff] at takes ⊢
    exact fun nothing => takes (ranked.empty_body nothing)
  induction h using Matches.success with
  | @text chars x c c' comes =>
    have read := (Cursor.Reaches.of_after? comes).length_eq
    cases chars with
    | nil => cases takes
    | cons d ds =>
      rw [List.length_cons] at read
      omega
  | char passes => exact Nat.lt_succ_self _
  | call visible body ih | callInToken hidden body ih => exact ih (body_takes takes)
  | @seq a b x c ts c' us c'' first second ih₁ ih₂ =>
    have stays := length_le wf first
    have skips := between_length_le wf x c'
    have further := length_le wf second
    rcases Bool.and_eq_false_iff.1 takes with takes | takes
    · have := ih₁ takes
      omega
    · have := ih₂ takes
      omega
  | altFirst first ih => exact ih (Bool.or_eq_false_iff.1 takes).1
  | altSecond first second ih => exact ih (Bool.or_eq_false_iff.1 takes).2
  | inputEnd | opt | optNone | star | starNone | more | moreNone | ahead | notAhead => cases takes

end Matches

/-! ## Enough fuel -/

/-- Whether an outcome is an answer. -/
def Outcome.Answers : Outcome ρ → Prop
  | .exhausted => False
  | .failed _ | .matched .. => True

namespace Grammar

variable {empty : ρ → Bool} {ranks : ρ → Nat} {bound : Nat}

/-- After a character there is fuel for anything that goes no further than the bound. -/
theorem enough_after {n m r k fuel : Nat} (taken : m < n) (within : r ≤ bound) (enough : n * bound + k ≤ fuel + 1)
    (pos : 0 < k) : m * bound + r ≤ fuel := by
  have : (m + 1) * bound ≤ n * bound := Nat.mul_le_mul_right bound taken
  rw [Nat.succ_mul] at this
  omega

/-- Where no character is taken there is fuel for what goes less far. -/
theorem enough_within {n m r k fuel : Nat} (stays : m ≤ n) (less : r < k) (enough : n * bound + k ≤ fuel + 1) :
    m * bound + r ≤ fuel := by
  have := Nat.mul_le_mul_right bound stays
  omega

theorem close_answers {r : ρ} {x : Texture} {look : Lookahead} {c : Cursor} {before : Nat × Nat} {o : Outcome ρ}
    (body : o.Answers) : (close r x look c before o).Answers := by
  cases o with
  | exhausted => exact body.elim
  | failed | matched => trivial

/-- With fuel for its rank and for each character that is left, an expression has an answer. -/
theorem Ranked.run_answers (wf : g.WellFormed) (ranked : g.Ranked empty ranks bound) {fuel : Nat} {e : Peg ρ}
    {x : Texture} {look : Lookahead} {c : Cursor} {t : Attempts ρ} (paced : e.paced empty ranks bound = true)
    (enough : c.rest.length * bound + e.rank empty ranks ≤ fuel) : (g.run fuel e x look c t).Answers := by
  induction fuel generalizing e x look c t with
  | zero =>
    have := rank_pos empty ranks e
    omega
  | succ fuel ih =>
    have within : ∀ (a : Peg ρ) (x look t) (d : Cursor), a.paced empty ranks bound = true →
        d.rest.length ≤ c.rest.length → a.rank empty ranks < e.rank empty ranks → (g.run fuel a x look d t).Answers :=
      fun _ _ _ _ _ paced stays less => ih paced (enough_within stays less enough)
    have after : ∀ (a : Peg ρ) (x look t) (d : Cursor), a.paced empty ranks bound = true →
        d.rest.length < c.rest.length → a.rank empty ranks ≤ bound → (g.run fuel a x look d t).Answers :=
      fun _ _ _ _ _ paced taken low => ih paced (enough_after taken low enough (rank_pos empty ranks e))
    cases e with
    | text chars =>
      simp only [run]
      split <;> trivial
    | char test =>
      simp only [run]
      split
      · split <;> trivial
      · trivial
    | inputEnd =>
      simp only [run]
      split <;> trivial
    | call r =>
      refine close_answers (within _ _ _ _ _ (ranked.paced_body r) (Nat.le_refl _) ?_)
      exact Nat.lt_succ_of_le (ranked.rank_body r)
    | seq a b =>
      simp only [Peg.paced, Bool.and_eq_true, decide_eq_true_eq] at paced
      obtain ⟨⟨pacedA, pacedB⟩, low⟩ := paced
      have first := within a x look t c pacedA (Nat.le_refl _) (by rw [rank]; omega)
      have told := tells_run (g := g) fuel a x look c t
      simp only [run]
      generalize g.run fuel a x look c t = o at first told ⊢
      cases o with
      | exhausted => exact first.elim
      | failed t' => trivial
      | matched ts c' t' =>
        obtain ⟨us, matched, -⟩ := told
        have skips := Matches.between_length_le wf x c'
        have stays := matched.length_le wf
        have second : (g.run fuel b x look (between g x c') t').Answers := by
          cases takes : a.mayBeEmpty empty with
          | true => exact within b x look t' _ pacedB (by omega) (by rw [rank, takes, if_pos rfl]; omega)
          | false =>
            have := matched.length_lt wf ranked takes
            exact after b x look t' _ pacedB (by omega) low
        simp only
        generalize g.run fuel b x look (between g x c') t' = o at second ⊢
        cases o with
        | exhausted => exact second.elim
        | failed | matched => trivial
    | alt a b =>
      simp only [Peg.paced, Bool.and_eq_true] at paced
      have first := within a x look t c paced.1 (Nat.le_refl _) (by rw [rank]; omega)
      simp only [run]
      generalize g.run fuel a x look c t = o at first ⊢
      cases o with
      | exhausted => exact first.elim
      | failed t' => exact within b x look t' c paced.2 (Nat.le_refl _) (by rw [rank]; omega)
      | matched => trivial
    | opt a =>
      have body := within a x look t c paced (Nat.le_refl _) (by rw [rank]; omega)
      simp only [run]
      generalize g.run fuel a x look c t = o at body ⊢
      cases o with
      | exhausted => exact body.elim
      | failed | matched => trivial
    | star a =>
      simp only [Peg.paced, Bool.and_eq_true, Bool.not_eq_true', decide_eq_true_eq] at paced
      obtain ⟨⟨pacedA, takes⟩, low⟩ := paced
      have first := within a x look t c pacedA (Nat.le_refl _) (by rw [rank]; omega)
      have told := tells_run (g := g) fuel a x look c t
      simp only [run]
      generalize g.run fuel a x look c t = o at first told ⊢
      cases o with
      | exhausted => exact first.elim
      | failed t' => trivial
      | matched ts c' t' =>
        obtain ⟨us, matched, -⟩ := told
        have taken := matched.length_lt wf ranked takes
        have rounds := after (.more a) x look t' c' (by simp [Peg.paced, pacedA, takes, low]) taken low
        simp only
        generalize g.run fuel (.more a) x look c' t' = o at rounds ⊢
        cases o with
        | exhausted => exact rounds.elim
        | failed | matched => trivial
    | more a =>
      simp only [Peg.paced, Bool.and_eq_true, Bool.not_eq_true', decide_eq_true_eq] at paced
      obtain ⟨⟨pacedA, takes⟩, low⟩ := paced
      have skips := Matches.between_length_le wf x c
      have first := within a x look t (between g x c) pacedA skips (by rw [rank]; omega)
      have told := tells_run (g := g) fuel a x look (between g x c) t
      simp only [run]
      generalize g.run fuel a x look (between g x c) t = o at first told ⊢
      cases o with
      | exhausted => exact first.elim
      | failed t' => trivial
      | matched ts c' t' =>
        obtain ⟨us, matched, -⟩ := told
        have taken := Nat.lt_of_lt_of_le (matched.length_lt wf ranked takes) skips
        have rounds := after (.more a) x look t' c' (by simp [Peg.paced, pacedA, takes, low]) taken low
        simp only
        generalize g.run fuel (.more a) x look c' t' = o at rounds ⊢
        cases o with
        | exhausted => exact rounds.elim
        | failed | matched => trivial
    | ahead a =>
      have body := within a x look.inAhead t c paced (Nat.le_refl _) (by rw [rank]; omega)
      simp only [run]
      generalize g.run fuel a x look.inAhead c t = o at body ⊢
      cases o with
      | exhausted => exact body.elim
      | failed | matched => trivial
    | notAhead a =>
      have body := within a x look.inNotAhead t c paced (Nat.le_refl _) (by rw [rank]; omega)
      simp only [run]
      generalize g.run fuel a x look.inNotAhead c t = o at body ⊢
      cases o with
      | exhausted => exact body.elim
      | failed | matched => trivial

/-- A parse without a tree stands for a text that the rule does not match. -/
theorem Ranked.matches_none_of_parse (wf : g.WellFormed) (ranked : g.Ranked empty ranks bound) {rule : ρ}
    (low : ranks rule < bound) {input : List Char} {attempts : Attempts ρ}
    (parsed : g.parse bound rule input = .error attempts) :
    Matches g (.call rule) .loose (Cursor.start input) none := by
  have enough : input.length * bound + (Peg.call rule).rank empty ranks ≤ (input.length + 1) * bound := by
    rw [Nat.succ_mul, rank]
    omega
  have answers : (g.run ((input.length + 1) * bound) (.call rule) .loose .none (Cursor.start input) .empty).Answers :=
    ranked.run_answers wf rfl enough
  have told := tells_run (g := g) ((input.length + 1) * bound) (.call rule) .loose .none (Cursor.start input) .empty
  unfold parse at parsed
  generalize g.run ((input.length + 1) * bound) (.call rule) .loose .none (Cursor.start input) .empty = o at *
  cases o with
  | exhausted => exact answers.elim
  | failed t => exact told
  | matched ts c' t =>
    obtain ⟨us, matched, same⟩ := told
    cases same rfl
    cases matched with
    | call visible body => cases parsed
    | callInToken hidden body => cases kind : g.kind rule <;> simp [kind, RuleKind.atCall] at hidden

end Grammar
end FlowScript.Peg
