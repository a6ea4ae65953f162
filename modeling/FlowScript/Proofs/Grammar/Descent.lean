import FlowScript.Proofs.Grammar.Comments
import FlowScript.Proofs.Grammar.Progress
import FlowScript.Proofs.Peg.Descent

/-!
# No rule comes back to its place

Matching a source asks for the bodies of rules, for their parts, and for trivia between them. With each such step less of
the source is left, or the rank gets lower; so no rule is asked for again before a character is taken, every round of a
repetition takes one, and matching ends.
-/

namespace FlowScript
open FlowScript.Grammar (Rule)
open FlowScript.Grammar.Trivia (Reads blank trivia)
open FlowScript.Peg (Asks Cursor Lower Matches Query)

namespace Grammar

/-- What the match of a rule, or of trivia, asks for in the end. -/
def Asked (q : Query Rule) : Prop :=
  ∃ e x c, (e = trivia ∨ ∃ r, e = .call r) ∧ Relation.ReflTransGen (Asks grammar) ⟨e, x, c⟩ q

/-- Matching goes down from here and ends. -/
structure Descends (q : Query Rule) : Prop where
  /-- Less of the source is left at each step, or the rank is lower. -/
  lower {q' : Query Rule} (asks : Asks grammar q q') : Lower (q'.height mayBeEmpty ranks) (q.height mayBeEmpty ranks)
  /-- No chain of steps goes on for ever. -/
  ends : Acc (fun q' q => Asks grammar q q') q
  outcome : ∃ o, Matches grammar q.expr q.texture q.place o
  /-- What is asked for again stands further to the right. -/
  again {q' : Query Rule} (chain : Relation.TransGen (Asks grammar) q q') (same : q'.expr = q.expr) :
    ∃ text, text ≠ [] ∧ q.place.Reaches text q'.place
  /-- What is repeated takes a character each time. -/
  rounds {e : Body} {x : Peg.Texture} {c c' : Cursor} {ts : List (Peg.Derivation Rule)} (mem : e ∈ q.expr.rounds)
    (round : Matches grammar e x c (some (ts, c'))) : ∃ text, text ≠ [] ∧ c.Reaches text c'

theorem trivia_paced : (trivia : Body).paced mayBeEmpty ranks fuelPerChar = true := by decide

theorem Asked.paced {q : Query Rule} (asked : Asked q) : q.expr.paced mayBeEmpty ranks fuelPerChar = true := by
  obtain ⟨e, x, c, start, chain⟩ := asked
  induction chain with
  | refl =>
    rcases start with rfl | ⟨r, rfl⟩
    · exact trivia_paced
    · rfl
  | tail _ asks ih => exact asks.paced grammar_ranked ih

theorem Asked.descends {q : Query Rule} (asked : Asked q) : Descends q where
  lower asks := asks.lower grammar_wellFormed grammar_ranked asked.paced
  ends := Asks.acc grammar_wellFormed grammar_ranked asked.paced
  outcome := Peg.exists_matches_of_acc (Asks.acc grammar_wellFormed grammar_ranked asked.paced)
  again chain same := Asks.exists_text_of_chain grammar_wellFormed grammar_ranked chain asked.paced same
  rounds mem round := round.exists_text_of_round grammar_wellFormed grammar_ranked asked.paced mem

end Grammar

/-- Matching a source ends: the fuel for its characters is enough, whatever a rule or trivia asks for goes down, and
trivia is skipped as its rules match. -/
theorem matching_ends :
    (∀ source : List Char,
      (grammar.run ((source.length + 1) * fuelPerChar) (.call .program) .loose .none (Cursor.start source) .empty).Answers) ∧
      (∀ q, Grammar.Asked q → Grammar.Descends q) ∧ ∀ c, Reads grammar trivia c (grammar.skip c) := by
  refine ⟨fun source => ?_, fun q => Grammar.Asked.descends, Grammar.Trivia.reads_skip grammar⟩
  refine grammar_ranked.run_answers grammar_wellFormed rfl ?_
  rw [Peg.rank, Nat.succ_mul]
  exact Nat.add_le_add_left (by decide) _

/-- A second blank is asked for behind the first. -/
theorem matching_ends_twoBlanks : ∃ q q', Grammar.Asked q ∧ Relation.TransGen (Asks grammar) q q' ∧ q'.expr = q.expr ∧
    ∃ text, text ≠ [] ∧ q.place.Reaches text q'.place := by
  have white : Grammar.Trivia.isBlank ' ' = true := by decide
  have first := Grammar.Trivia.reads_char (g := grammar) white [' '] .zero
  have asked : Grammar.Asked ⟨.more blank, .atomic, ⟨[' '], Position.zero.next ' '⟩⟩ :=
    ⟨trivia, .atomic, Cursor.start [' ', ' '], .inl rfl, .tail (.single .seqFirst) (.starMore first)⟩
  have chain := Relation.TransGen.single (Asks.moreMore (g := grammar) (x := .atomic)
    (Grammar.Trivia.reads_char white [] (Position.zero.next ' ')))
  exact ⟨_, _, asked, chain, rfl, (matching_ends.2.1 _ asked).again chain rfl⟩

end FlowScript
