import FlowScript.Proofs.Peg.Progress
import Mathlib.Data.Prod.Lex
import Mathlib.Logic.Relation

/-!
# What a match asks for

Matching an expression at a place asks for matches of its parts, there or further to the right (`Asks`). In a ranked
grammar each step leads to a shorter rest of the input, or to a lower rank at the same rest. So no chain of steps goes on
for ever, everything asked for has an outcome, and a chain that comes back to an expression has taken a character.
-/

namespace FlowScript.Peg
open FlowScript.Peg.Grammar (between)

variable {ρ : Type} {g : Grammar ρ}

/-- An expression to be matched at a place. -/
structure Query (ρ : Type) where
  expr : Peg ρ
  texture : Texture
  place : Cursor

/-- The match of an expression at a place asks for the match of another: of a rule's body, of the parts of a sequence up to
    the first that fails, of alternatives up to the first that matches, of round after round. -/
inductive Asks (g : Grammar ρ) : Query ρ → Query ρ → Prop
  | call {r x c} : Asks g ⟨.call r, x, c⟩ ⟨g.body r, (g.kind r).inBody x, c⟩
  | seqFirst {a b x c} : Asks g ⟨.seq a b, x, c⟩ ⟨a, x, c⟩
  | seqSecond {a b x c ts c'} (first : Matches g a x c (some (ts, c'))) :
    Asks g ⟨.seq a b, x, c⟩ ⟨b, x, between g x c'⟩
  | altFirst {a b x c} : Asks g ⟨.alt a b, x, c⟩ ⟨a, x, c⟩
  | altSecond {a b x c} (first : Matches g a x c none) : Asks g ⟨.alt a b, x, c⟩ ⟨b, x, c⟩
  | opt {a x c} : Asks g ⟨.opt a, x, c⟩ ⟨a, x, c⟩
  | star {a x c} : Asks g ⟨.star a, x, c⟩ ⟨a, x, c⟩
  | starMore {a x c ts c'} (first : Matches g a x c (some (ts, c'))) : Asks g ⟨.star a, x, c⟩ ⟨.more a, x, c'⟩
  | more {a x c} : Asks g ⟨.more a, x, c⟩ ⟨a, x, between g x c⟩
  | moreMore {a x c ts c'} (first : Matches g a x (between g x c) (some (ts, c'))) :
    Asks g ⟨.more a, x, c⟩ ⟨.more a, x, c'⟩
  | ahead {a x c} : Asks g ⟨.ahead a, x, c⟩ ⟨a, x, c⟩
  | notAhead {a x c} : Asks g ⟨.notAhead a, x, c⟩ ⟨a, x, c⟩

/-- The expressions that an expression repeats. -/
def rounds : Peg ρ → List (Peg ρ)
  | .text _ | .char _ | .inputEnd | .call _ => []
  | .seq a b | .alt a b => a.rounds ++ b.rounds
  | .opt a | .ahead a | .notAhead a => a.rounds
  | .star a | .more a => a :: a.rounds

/-- How much of the input is left, and how far matching the expression goes inwards before a character is taken. -/
def Query.height (empty : ρ → Bool) (ranks : ρ → Nat) (q : Query ρ) : ℕ × ℕ :=
  (q.place.rest.length, q.expr.rank empty ranks)

/-- Less of the input is left, or as much of it at a lower rank. -/
abbrev Lower : ℕ × ℕ → ℕ × ℕ → Prop := Prod.Lex (· < ·) (· < ·)

theorem lower_of_le {m n k l : ℕ} (stays : m ≤ n) (less : k < l) : Lower (m, k) (n, l) := by
  rcases Nat.lt_or_eq_of_le stays with taken | rfl
  · exact .left _ _ taken
  · exact .right _ less

/-! ## One step -/

namespace Asks

variable {empty : ρ → Bool} {ranks : ρ → Nat} {bound : Nat} {q q' : Query ρ}

/-- What is asked for stands at the same place or behind it. -/
theorem reaches (wf : g.WellFormed) (asks : Asks g q q') : ∃ text, q.place.Reaches text q'.place := by
  cases asks with
  | call | seqFirst | altFirst | altSecond | opt | star | ahead | notAhead => exact ⟨[], .refl _⟩
  | starMore first => exact (first.chain wf).reaches
  | more => exact Matches.between_reaches wf _ _
  | seqSecond first =>
    obtain ⟨text, read⟩ := (first.chain wf).reaches
    obtain ⟨gap, skipped⟩ := Matches.between_reaches wf _ _
    exact ⟨_, read.append skipped⟩
  | moreMore first =>
    obtain ⟨gap, skipped⟩ := Matches.between_reaches wf _ _
    obtain ⟨text, read⟩ := (first.chain wf).reaches
    exact ⟨_, skipped.append read⟩

theorem paced (ranked : g.Ranked empty ranks bound) (asks : Asks g q q') (paced : q.expr.paced empty ranks bound = true) :
    q'.expr.paced empty ranks bound = true := by
  cases asks with
  | call => exact ranked.paced_body _
  | seqFirst | seqSecond | altFirst | altSecond | star | more =>
    simp only [Peg.paced, Bool.and_eq_true] at paced
    simp only [paced]
  | opt | starMore | moreMore | ahead | notAhead => exact paced

/-- What is asked for has less of the input left, or stands lower. -/
theorem lower (wf : g.WellFormed) (ranked : g.Ranked empty ranks bound) (asks : Asks g q q')
    (paced : q.expr.paced empty ranks bound = true) : Lower (q'.height empty ranks) (q.height empty ranks) := by
  cases asks with
  | call => exact .right _ (Nat.lt_succ_of_le (ranked.rank_body _))
  | seqFirst | altFirst | altSecond => exact .right _ (by simp only [rank]; omega)
  | opt | star | ahead | notAhead => exact .right _ (Nat.lt_succ_self _)
  | more => exact lower_of_le (Matches.between_length_le wf _ _) (Nat.lt_succ_self _)
  | @seqSecond a b x c ts c' first =>
    have skips := Matches.between_length_le wf x c'
    cases takes : a.mayBeEmpty empty with
    | true =>
      refine lower_of_le (skips.trans (first.length_le wf)) ?_
      simp only [rank, takes, if_true]
      omega
    | false => exact .left _ _ (Nat.lt_of_le_of_lt skips (first.length_lt wf ranked takes))
  | starMore first =>
    simp only [Peg.paced, Bool.and_eq_true, Bool.not_eq_true'] at paced
    exact .left _ _ (first.length_lt wf ranked paced.1.2)
  | @moreMore a x c ts c' first =>
    simp only [Peg.paced, Bool.and_eq_true, Bool.not_eq_true'] at paced
    exact .left _ _ (Nat.lt_of_lt_of_le (first.length_lt wf ranked paced.1.2) (Matches.between_length_le wf x c))

/-! ## Chains of steps -/

/-- A chain of steps leads to the right and downwards. -/
theorem lower_of_chain (wf : g.WellFormed) (ranked : g.Ranked empty ranks bound) (chain : Relation.TransGen (Asks g) q q')
    (paced : q.expr.paced empty ranks bound = true) :
    Lower (q'.height empty ranks) (q.height empty ranks) ∧ ∃ text, q.place.Reaches text q'.place := by
  suffices q'.expr.paced empty ranks bound = true ∧ Lower (q'.height empty ranks) (q.height empty ranks) ∧
      ∃ text, q.place.Reaches text q'.place from this.2
  induction chain with
  | single asks => exact ⟨asks.paced ranked paced, asks.lower wf ranked paced, asks.reaches wf⟩
  | tail _ asks ih =>
    obtain ⟨paced, lower, text, read⟩ := ih
    obtain ⟨next, further⟩ := asks.reaches wf
    exact ⟨asks.paced ranked paced, Prod.Lex.trans (asks.lower wf ranked paced) lower, _, read.append further⟩

/-- A chain that comes back to an expression has taken a character. -/
theorem exists_text_of_chain (wf : g.WellFormed) (ranked : g.Ranked empty ranks bound)
    (chain : Relation.TransGen (Asks g) q q') (paced : q.expr.paced empty ranks bound = true) (again : q'.expr = q.expr) :
    ∃ text, text ≠ [] ∧ q.place.Reaches text q'.place := by
  obtain ⟨lower, text, read⟩ := lower_of_chain wf ranked chain paced
  refine ⟨text, ?_, read⟩
  rintro rfl
  have rest := read.rest
  rw [List.nil_append] at rest
  rw [Query.height, Query.height, again, rest] at lower
  rcases Prod.lex_def.1 lower with less | ⟨-, less⟩ <;> exact Nat.lt_irrefl _ less

/-- No chain of steps goes on for ever. -/
theorem acc (wf : g.WellFormed) (ranked : g.Ranked empty ranks bound) (paced : q.expr.paced empty ranks bound = true) :
    Acc (fun q' q => Asks g q q') q := by
  have low : Acc Lower (q.height empty ranks) := (WellFounded.prod_lex Nat.lt_wfRel.wf Nat.lt_wfRel.wf).apply _
  generalize height : q.height empty ranks = h at low
  induction low generalizing q with
  | intro h _ ih =>
    subst height
    exact ⟨q, fun q' asks => ih _ (asks.lower wf ranked paced) (asks.paced ranked paced) rfl⟩

end Asks

/-- Where no chain goes on for ever, there is an outcome. -/
theorem exists_matches_of_acc {q : Query ρ} (ends : Acc (fun q' q => Asks g q q') q) :
    ∃ o, Matches g q.expr q.texture q.place o := by
  induction ends with
  | intro q _ ih =>
    obtain ⟨e, x, c⟩ := q
    -- Each part is asked for only after what comes before it has turned out as it must.
    have part {a : Peg ρ} {x' : Texture} {c' : Cursor} (asks : Asks g ⟨e, x, c⟩ ⟨a, x', c'⟩) :
        Matches g a x' c' none ∨ ∃ ts c'', Matches g a x' c' (some (ts, c'')) := by
      obtain ⟨_ | ⟨ts, c''⟩, matched⟩ := ih _ asks
      · exact .inl matched
      · exact .inr ⟨ts, c'', matched⟩
    cases e with
    | text chars =>
      cases comes : c.after? chars with
      | none => exact ⟨_, .textFails comes⟩
      | some c' => exact ⟨_, .text comes⟩
    | char test =>
      obtain ⟨_ | ⟨d, rest⟩, place⟩ := c
      · exact ⟨_, .charFails nofun⟩
      · cases passes : test d with
        | true => exact ⟨_, .char passes⟩
        | false => exact ⟨_, .charFails (by rintro _ _ ⟨⟩; exact passes)⟩
    | inputEnd =>
      by_cases nothing : c.rest = []
      · exact ⟨_, .inputEnd nothing⟩
      · exact ⟨_, .inputEndFails nothing⟩
    | call r =>
      rcases part .call with body | ⟨ts, c', body⟩
      · exact ⟨_, .callFails body⟩
      · by_cases hidden : (g.kind r).atCall x = .atomic
        · exact ⟨_, .callInToken hidden body⟩
        · exact ⟨_, .call hidden body⟩
    | seq a b =>
      rcases part .seqFirst with first | ⟨ts, c', first⟩
      · exact ⟨_, .seqFails first⟩
      · rcases part (.seqSecond first) with second | ⟨us, c'', second⟩
        · exact ⟨_, .seqFailsLater first second⟩
        · exact ⟨_, .seq first second⟩
    | alt a b =>
      rcases part .altFirst with first | ⟨ts, c', first⟩
      · obtain ⟨o, second⟩ := ih _ (.altSecond first)
        exact ⟨o, .altSecond first second⟩
      · exact ⟨_, .altFirst first⟩
    | opt a =>
      rcases part .opt with body | ⟨ts, c', body⟩
      · exact ⟨_, .optNone body⟩
      · exact ⟨_, .opt body⟩
    | star a =>
      rcases part .star with first | ⟨ts, c', first⟩
      · exact ⟨_, .starNone first⟩
      · rcases part (.starMore first) with rounds | ⟨us, c'', rounds⟩
        · exact absurd rounds Matches.not_more_none
        · exact ⟨_, .star first rounds⟩
    | more a =>
      rcases part .more with first | ⟨ts, c', first⟩
      · exact ⟨_, .moreNone first⟩
      · rcases part (.moreMore first) with rounds | ⟨us, c'', rounds⟩
        · exact absurd rounds Matches.not_more_none
        · exact ⟨_, .more first rounds⟩
    | ahead a =>
      rcases part .ahead with body | ⟨ts, c', body⟩
      · exact ⟨_, .aheadFails body⟩
      · exact ⟨_, .ahead body⟩
    | notAhead a =>
      rcases part .notAhead with body | ⟨ts, c', body⟩
      · exact ⟨_, .notAhead body⟩
      · exact ⟨_, .notAheadFails body⟩

/-! ## Rounds -/

/-- What a paced expression repeats cannot be empty. -/
theorem mayBeEmpty_of_mem_rounds {empty : ρ → Bool} {ranks : ρ → Nat} {bound : Nat} {e a : Peg ρ}
    (paced : e.paced empty ranks bound = true) (mem : a ∈ e.rounds) : a.mayBeEmpty empty = false := by
  induction e with
  | text | char | inputEnd | call => cases mem
  | seq b c ihB ihC =>
    simp only [Peg.paced, Bool.and_eq_true] at paced
    exact (List.mem_append.1 mem).elim (ihB paced.1.1) (ihC paced.1.2)
  | alt b c ihB ihC =>
    simp only [Peg.paced, Bool.and_eq_true] at paced
    exact (List.mem_append.1 mem).elim (ihB paced.1) (ihC paced.2)
  | opt b ih | ahead b ih | notAhead b ih => exact ih paced mem
  | star b ih | more b ih =>
    simp only [Peg.paced, Bool.and_eq_true, Bool.not_eq_true'] at paced
    rcases List.mem_cons.1 mem with rfl | inside
    · exact paced.1.2
    · exact ih paced.1.1 inside

/-- Every round of a repetition takes a character. -/
theorem Matches.exists_text_of_round (wf : g.WellFormed) {empty : ρ → Bool} {ranks : ρ → Nat} {bound : Nat}
    (ranked : g.Ranked empty ranks bound) {e a : Peg ρ} (paced : e.paced empty ranks bound = true) (mem : a ∈ e.rounds)
    {x : Texture} {c c' : Cursor} {ts : List (Derivation ρ)} (round : Matches g a x c (some (ts, c'))) :
    ∃ text, text ≠ [] ∧ c.Reaches text c' := by
  obtain ⟨text, read⟩ := (round.chain wf).reaches
  have taken := round.length_lt wf ranked (mayBeEmpty_of_mem_rounds paced mem)
  refine ⟨text, ?_, read⟩
  rintro rfl
  have same := read.length_eq
  simp only [List.length_nil] at same
  omega

end FlowScript.Peg
