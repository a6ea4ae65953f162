import FlowScript.Proofs.Grammar.Brackets
import FlowScript.Proofs.Grammar.Progress

/-!
# Signs of bracketless nesting in a script

Behind the arrow of a function and behind the question mark of a conditional the pass over the tokens has read a sign of
bracketless nesting. An arrow is one wherever it stands outside of quotes and comments. A question mark is one because
what stands before it ends in no other question mark, and what stands behind it begins neither with one nor with a dot
that is not the dot of a number.
-/

namespace FlowScript.Grammar
open FlowScript.Nesting (Climbs Signs climb)
open FlowScript.Nesting.Token (Fresh Outside Stretch)
open FlowScript.Peg (Cursor Derivation Matches parts)

variable {c c' : Cursor} {ts : List (Derivation Rule)}

/-! ## What a question mark stands behind -/

/-- Whether the last character of a rule's matches may be a question mark. -/
def mayEndInQuestion : Rule → Bool
  | .templateChunk | .params | .param | .optionalMark | .operator .nullish | .tsTupleElem | .tsFnParams | .tsFnParam
  | .tsPropSig => true
  | _ => false

theorem body_neverEndsIn_question (r : Rule) (other : (!mayEndInQuestion r) = true) :
    (ruleBody r).neverEndsIn ['?'] mayBeEmpty (!mayEndInQuestion ·) = true := by
  cases r with
  | keyword word => cases word <;> decide +kernel
  | operator op => cases op <;> first | decide +kernel | cases other
  | level tier => cases tier <;> decide +kernel
  | _ => first | decide +kernel | cases other

/-- The last character up to the end of the trivia behind a match is that of the match or of the trivia, so it is no
    question mark, unless the input ends there. -/
theorem exists_last_apart {r : Rule} (h : Matches grammar (.call r) .loose c (some (ts, c')))
    (other : mayEndInQuestion r = false) (takes : mayBeEmpty r = false) :
    (Trivia.skip c').rest = [] ∨ ∃ front d, c.Reaches (front ++ [d]) (Trivia.skip c') ∧ d ≠ '?' := by
  obtain ⟨last, taken⟩ := h.takes
  cases last with
  | none =>
    have may := taken.mayBeEmpty (fun r => (body_ranked r).1) rfl
    rw [Peg.mayBeEmpty, takes] at may
    cases may
  | some e =>
    obtain ⟨front, d, first, never⟩ := taken.endsIn grammar_wellFormed (fun r => (body_ranked r).1)
      body_neverEndsIn_question e rfl
    have apart : d ≠ '?' := by simpa using never (by simp [Peg.neverEndsIn, other])
    have same : Trivia.skip c' = Trivia.skip e := by
      rcases taken.settles grammar_wellFormed with is | is <;> rw [is]
      · rfl
      · exact Trivia.skip_skip e
    rw [same]
    rcases Trivia.skip_ends e with stays | atEnd | ⟨gap, f, trivia, ends⟩
    · rw [stays]
      exact .inr ⟨front, d, first, apart⟩
    · exact .inl atEnd
    · refine .inr ⟨(front ++ [d]) ++ gap, f, ?_, ?_⟩
      · rw [List.append_assoc]
        exact first.append trivia
      · rintro rfl
        rcases ends with blank | slash
        · revert blank
          decide
        · revert slash
          decide

/-- Behind a match and the trivia after it a question mark is read. -/
theorem exists_fresh {r : Rule} (h : Matches grammar (.call r) .loose c (some (ts, c'))) (other : mayEndInQuestion r = false)
    (takes : mayBeEmpty r = false) (tidy : PairedReturns c.rest) (level : Climbs c 0 c' 0) {p : Nesting.Token.Place}
    (outside : Outside p c.rest) :
    ∃ ts p', Stretch c p ts (Trivia.skip c') p' ∧ Outside p' (Trivia.skip c').rest ∧ climb 0 ts = some 0 ∧
      Fresh p' (Trivia.skip c').rest := by
  obtain ⟨text, read⟩ := (h.chain grammar_wellFormed).reaches
  have behind : PairedReturns c'.rest := PairedReturns.suffix (read.rest ▸ tidy)
  obtain ⟨ts, p', stretch, outside', flat⟩ := (level.trans (skip_climbs c' behind)) p outside
  refine ⟨ts, p', stretch, outside', flat, ?_⟩
  rcases exists_last_apart h other takes with atEnd | ⟨front, d, read, apart⟩
  · intro front
    rw [atEnd] at front
    cases front
  cases rest : c.rest with
  | nil =>
    have nothing := read.rest
    rw [rest] at nothing
    simp at nothing
  | cons x r =>
    rcases stretch.fresh (rest ▸ outside : Outside p (x :: r)).simple with ⟨same, -⟩ | ⟨front', d', read', fresh⟩
    · rw [same] at read
      have := read.unique (.refl c)
      simp at this
    · have both := read.unique read'
      obtain ⟨-, rfl⟩ := List.append_singleton_inj.1 both
      exact fresh apart

/-! ## What stands behind a question mark -/

/-- What an expression begins with: no question mark, and no dot but that of a number. -/
def BeginsOperand (rest : List Char) : Prop :=
  rest.head? ≠ some '?' ∧ ¬ (rest.head? = some '.' ∧ rest.tail.head?.any Char.isDigit = false)

/-- Whether the first character of a rule's matches may be a question mark or a dot. -/
def mayBeginOddly : Rule → Bool
  | .templateChunk | .params | .param | .restParam | .optionalMark | .restPattern | .assignOp | .operator .nullish
  | .optionalCall | .optionalIndex | .optionalMember | .memberAccess | .argList | .spreadElem | .tsTupleElem
  | .tsFnParams | .tsFnParam => true
  | _ => false

theorem beginsOperand_cons (d : Char) (rest : List Char) (plain : d ∉ ['?', '.']) : BeginsOperand (d :: rest) := by
  simp only [List.mem_cons, List.not_mem_nil, or_false, not_or] at plain
  refine ⟨?_, ?_⟩
  · rintro ⟨⟩
    exact plain.1 rfl
  · rintro ⟨⟨⟩, -⟩
    exact plain.2 rfl

/-- A number may begin with a dot, before a digit. -/
theorem number_beginsOperand {o : List (Derivation Rule) × Cursor} (h : Matches grammar numberBody .atomic c (some o)) :
    BeginsOperand c.rest := by
  have plain {e : Body} {o : List (Derivation Rule) × Cursor} (h : Matches grammar e .atomic c (some o))
      (never : e.neverBeginsWith ['?', '.'] mayBeEmpty (fun _ => false) = true) (takes : e.mayBeEmpty mayBeEmpty = false) :
      BeginsOperand c.rest := by
    refine (h.begins grammar_wellFormed (fun r => (body_ranked r).1) beginsOperand_cons
      (fun _ safe => absurd safe Bool.false_ne_true) nofun never).resolve_right ?_
    rw [takes]
    nofun
  cases h with
  | altFirst hex => exact plain hex (by decide) rfl
  | altSecond _ h =>
  cases h with
  | altFirst binary => exact plain binary (by decide) rfl
  | altSecond _ h =>
  cases h with
  | altFirst octal => exact plain octal (by decide) rfl
  | altSecond _ h =>
  cases h with
  | altFirst decimal => exact plain decimal (by decide) rfl
  | altSecond _ h =>
  cases h with
  | seq dot rest =>
    cases dot with
    | text comes =>
      obtain ⟨r, n, rfl, rfl⟩ := Cursor.exists_of_after?_singleton comes
      cases rest with
      | seq digits _ =>
        cases digits with
        | seq first _ =>
          obtain ⟨d, digit, read⟩ := first.exists_of_char
          have next : r = d :: _ := read.rest
          refine ⟨nofun, fun ⟨_, none_⟩ => ?_⟩
          rw [List.tail_cons, next] at none_
          exact Bool.false_ne_true (none_.symm.trans digit)

theorem body_neverBeginsOddly (r : Rule) (plain : (!mayBeginOddly r) = true) :
    (ruleBody r).neverBeginsWith ['?', '.'] mayBeEmpty (!mayBeginOddly ·) = true ∨
      ∀ x c o, Matches grammar (ruleBody r) ((ruleKind r).inBody x) c (some o) → BeginsOperand c.rest := by
  cases r with
  | number => exact .inr fun x c o h => number_beginsOperand h
  | keyword word => cases word <;> exact .inl (by decide +kernel)
  | operator op => cases op <;> first | exact .inl (by decide +kernel) | cases plain
  | level tier => cases tier <;> exact .inl (by decide +kernel)
  | _ => first | exact .inl (by decide +kernel) | cases plain

theorem expression_beginsOperand (h : Matches grammar (.call .assignExpr) .loose c (some (ts, c')))
    (settled : Trivia.skip c = c) : BeginsOperand c.rest := by
  refine (h.begins grammar_wellFormed (fun r => (body_ranked r).1) beginsOperand_cons body_neverBeginsOddly
    (fun _ => settled) rfl).resolve_right ?_
  rintro ⟨⟨⟩, -⟩

/-- A question mark or a dot is no trivia, so it would begin an expression that stands behind trivia. -/
theorem beginsOperand_of_skip (h : Matches grammar (.call .assignExpr) .loose (Trivia.skip c) (some (ts, c'))) :
    BeginsOperand c.rest := by
  obtain ⟨cs, n⟩ := c
  cases cs with
  | nil => exact ⟨nofun, nofun⟩
  | cons x r =>
    by_cases plain : x ∈ ['?', '.']
    · have settled : Trivia.skip ⟨x :: r, n⟩ = ⟨x :: r, n⟩ := by
        rcases List.mem_pair.1 plain with rfl | rfl <;> exact Trivia.skip_of_token (by decide) (by decide)
      rw [settled] at h
      exact expression_beginsOperand h settled
    · exact beginsOperand_cons x r plain

/-! ## Signs in a match -/

/-- A sign in the second of two parts, where the first one leaves the brackets as they are. -/
theorem signs_of_seq (rule : Rule) {target : Rule} {a b : Body} (h : Matches grammar (.seq a b) .loose c (some (ts, c')))
    (tidy : PairedReturns c.rest) (inside : ∀ u ∈ ts, Climbs u.start 0 u.stop 0)
    (level : a.climbs (asks rule) 0 = some 0) (other : target ∉ a.calls)
    (next : ∀ d us, PairedReturns d.rest → Matches grammar b .loose d (some (us, c')) →
      (∀ u ∈ us, Climbs u.start 0 u.stop 0) → ∀ u ∈ us, u.rule = target → Signs d u.start) :
    ∀ u ∈ ts, u.rule = target → Signs c u.start := by
  cases h with
  | @seq _ _ _ _ us d vs _ first second =>
    obtain ⟨insideA, insideB⟩ := List.forall_mem_append.1 inside
    obtain ⟨text, read⟩ := (first.chain grammar_wellFormed).reaches
    have behind : PairedReturns d.rest := PairedReturns.suffix (read.rest ▸ tidy)
    obtain ⟨gap, skipped⟩ := Trivia.skip_reaches d
    have further : PairedReturns (Trivia.skip d).rest := PairedReturns.suffix (skipped.rest ▸ behind)
    have flat := (first.climbs grammar_wellFormed PairedReturns.suffix skip_climbs (.inl nofun) tidy level insideA).1
    intro u mem is
    rcases List.mem_append.1 mem with before | later
    · have called := Peg.mem_calls_of_mem_words (first.words nofun) (List.mem_map_of_mem before)
      exact absurd (is ▸ called) other
    · exact (next _ vs further second insideB u later is).prepend (flat.trans (skip_climbs d behind))

/-- The body of an arrow function stands behind its arrow. -/
theorem arrow_signs (h : Matches grammar (ruleBody .arrowFn) .loose c (some (ts, c'))) (tidy : PairedReturns c.rest)
    (inside : ∀ u ∈ ts, Climbs u.start 0 u.stop 0) : ∀ u ∈ ts, u.rule = .arrowBody → Signs c u.start := by
  refine signs_of_seq .arrowFn h tidy inside (by decide +kernel) (by decide) fun c ts tidy h inside => ?_
  refine signs_of_seq .arrowFn h tidy inside (by decide +kernel) (by decide) fun c ts tidy h inside => ?_
  refine signs_of_seq .arrowFn h tidy inside (by decide +kernel) (by decide) fun c ts tidy h inside => ?_
  refine signs_of_seq .arrowFn h tidy inside (by decide +kernel) (by decide) fun c ts tidy h inside => ?_
  cases h with
  | @seq _ _ _ _ us d vs _ first second =>
    cases first with
    | text comes =>
      have behind : PairedReturns d.rest := PairedReturns.suffix ((Cursor.Reaches.of_after? comes).rest ▸ tidy)
      cases second with
      | call visible body =>
        rintro u mem -
        obtain rfl := List.mem_singleton.1 mem
        exact (Signs.arrow comes).append (skip_climbs d behind)
      | callInToken hidden body => cases hidden

/-- The branches of a conditional stand behind its question mark. -/
theorem conditional_signs (h : Matches grammar (ruleBody .conditionalExpr) .loose c (some (ts, c')))
    (tidy : PairedReturns c.rest) (inside : ∀ u ∈ ts, Climbs u.start 0 u.stop 0) :
    ∀ u ∈ ts.tail, Signs c u.start := by
  cases h with
  | @seq _ _ _ _ _ d _ _ test rest =>
    have tests := test
    cases test with
    | callInToken hidden body => cases hidden
    | call visible body =>
      have level := inside _ (List.mem_cons_self ..)
      replace inside := (List.forall_mem_cons.1 inside).2
      rw [List.singleton_append, List.tail_cons] at *
      cases rest with
      | optNone => nofun
      | opt branches =>
        cases branches with
        | @seq _ _ _ _ vs e us _ sign branches =>
          cases sign with
          | text comes =>
            rw [List.nil_append] at inside ⊢
            obtain ⟨text, read⟩ := (tests.chain grammar_wellFormed).reaches
            obtain ⟨gap, skipped⟩ := Trivia.skip_reaches d
            obtain ⟨after, behind⟩ := Trivia.skip_reaches e
            have whole := (read.append skipped).append (.of_after? comes)
            have tidyE : PairedReturns e.rest := PairedReturns.suffix (whole.rest ▸ tidy)
            have tidyF : PairedReturns (Trivia.skip e).rest := PairedReturns.suffix (behind.rest ▸ tidyE)
            have next : BeginsOperand e.rest := by
              cases branches with
              | seq first _ => exact beginsOperand_of_skip first
            have sign : Signs c e := .question (fun p => exists_fresh tests rfl rfl tidy level) comes next.1 next.2
            have shows_ : (parts [.call .assignExpr, ":", .call .assignExpr]).climbs (asks .conditionalExpr) 0 = some 0 := by
              decide +kernel
            have climbs :=
              (branches.climbs grammar_wellFormed PairedReturns.suffix skip_climbs (.inl nofun) tidyF shows_ inside).2
            intro u mem
            obtain ⟨k, asked, climbs⟩ := climbs u mem
            obtain rfl : k = 0 := of_decide_eq_true asked
            exact sign.append ((skip_climbs e tidyE).trans climbs)

end FlowScript.Grammar
