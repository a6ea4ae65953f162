import FlowScript.Grammar.Basic
import FlowScript.Proofs.Grammar.Trivia
import FlowScript.Proofs.Peg.Words

/-!
# The script grammar as a grammar

The script grammar is well-formed, so that everything said of matches in general holds of it.
-/

namespace FlowScript.Grammar
open FlowScript.Peg (Cursor Derivation Fits Matches)

/-- Tokens call no rules. -/
theorem calls_of_token {r : Rule} (token : ruleKind r = .token) : (ruleBody r).calls = [] := by
  cases r with
  | operator op => cases op <;> rfl
  | _ => first | rfl | cases token

/-- The only rule that skips trivia inside a literal is a substitution, and it begins with its mark. -/
theorem settled_of_loose {r : Rule} {c : Cursor} {o} (loose : ruleKind r = .loose)
    (body : Matches grammar (ruleBody r) .loose c (some o)) : Trivia.skip c = c := by
  cases r with
  | templateSubst =>
    cases body with
    | seq first second =>
      cases first with
      | text comes =>
        have front := (Cursor.Reaches.of_after? comes).rest
        obtain ⟨rest, place⟩ := c
        subst front
        exact Trivia.skip_of_token (by decide) (by decide)
  | _ => cases loose

theorem compound_calls {r s : Rule} (compound : ruleKind r = .compound) (called : s ∈ (ruleBody r).calls) :
    ruleKind s ≠ .plain := by
  cases r with
  | template =>
    have both : (ruleBody .template).calls = [.templateChunk, .templateSubst] := rfl
    rw [both] at called
    rcases List.mem_pair.1 called with rfl | rfl <;> nofun
  | _ => cases compound

/-- The rules of the matches inside a match are a word of its body. -/
theorem rules_mem_words {rule : Rule} {start stop : Cursor} {children : List (Derivation Rule)}
    (notToken : ruleKind rule ≠ .token) (fits : Fits grammar (.node rule start stop children)) :
    children.map Derivation.rule ∈ (ruleBody rule).words := by
  cases fits with
  | @node r x start stop children visible body =>
    refine body.words ?_
    change (ruleKind rule).inBody x ≠ .atomic
    change (ruleKind rule).atCall x ≠ .atomic at visible
    cases kind : ruleKind rule with
    | plain => rwa [kind] at visible
    | token => exact absurd kind notToken
    | compound | loose => nofun

/-- The rules of the matches inside a match are called by its body. -/
theorem rule_mem_calls {rule : Rule} {start stop : Cursor} {children : List (Derivation Rule)}
    (fits : Fits grammar (.node rule start stop children)) : ∀ t ∈ children, t.rule ∈ (ruleBody rule).calls := by
  intro t mem
  by_cases token : ruleKind rule = .token
  · cases fits with
    | node visible body =>
      cases body.trees_eq_nil (calls_of_token token)
      cases mem
  · exact Peg.mem_calls_of_mem_words (rules_mem_words token fits) (List.mem_map_of_mem mem)

end FlowScript.Grammar

namespace FlowScript

theorem grammar_wellFormed : grammar.WellFormed where
  skips := Grammar.Trivia.skip_reaches
  skip_skip := Grammar.Trivia.skip_skip
  token_calls := Grammar.calls_of_token
  compound_calls := Grammar.compound_calls
  loose_settled := Grammar.settled_of_loose

/-- A tree that the parse of a source answers with is one of the whole program, and fits. -/
theorem fits_of_parse {fuelPerChar : Nat} {source : List Char} {tree : FlowScript.Peg.Derivation Grammar.Rule}
    (parsed : grammar.parse fuelPerChar .program source = .ok tree) :
    FlowScript.Peg.Fits grammar tree ∧ tree.rule = .program ∧ tree.start = FlowScript.Peg.Cursor.start source := by
  obtain ⟨stop, matched⟩ := FlowScript.Peg.Grammar.matches_of_parse parsed
  generalize only : [tree] = trees at matched
  cases matched with
  | call visible body =>
    cases only
    have room : (grammar.body .program).resumes = true := rfl
    have inside := body.fits grammar_wellFormed (fun _ tight => absurd (room.symm.trans tight) nofun) (.inl rfl)
    exact ⟨.node visible body (fun _ tight => absurd (room.symm.trans tight) nofun) (fun _ => rfl) inside, rfl, rfl⟩
  | callInToken hidden body => cases hidden

end FlowScript
