import FlowScript.Parse.Module
import FlowScript.Proofs.Grammar.Script
import FlowScript.Proofs.Peg.Progress

/-!
# The script grammar comes to an end

The rules of the script grammar stand in tiers: before a rule takes a character it calls rules of lower tiers only, and
every round of a repetition takes one. So the fuel that a source is given is always enough, and a source is reported as
a mismatch only where the grammar does not match it.
-/

namespace FlowScript
open FlowScript.Grammar (Rule ruleBody)
open FlowScript.Peg (Cursor Matches)

namespace Grammar

/-- The rules that may match without taking a character. -/
def mayBeEmpty : Rule → Bool
  | .endOfInput | .program | .arrayHole | .patternHole => true
  | _ => false

/-- The tier of the operators of a level. -/
def Level.tier : Level → Nat
  | multiplicative => 8
  | additive => 9
  | shift => 10
  | relational => 11
  | equality => 12
  | bitAnd => 13
  | bitXor => 14
  | bitOr => 15
  | logicalAnd => 16
  | logicalOr => 17
  | nullish => 18

/-- The tier of a rule. Tokens stand lowest, and most rules begin with a token or a sign of their own. -/
def tier : Rule → Nat
  | .template | .restParam | .objectPattern | .arrayPattern | .computedKey | .tsTypeArgs | .tsTypeParams => 2
  | .varStmt | .params | .switchCase | .enumMember | .importClause | .patternPair | .arrowFn | .callExpr | .newCallee
  | .objectPair | .objectMethod | .tsPostfixType | .tsFnParams | .tsMethodSig | .tsPropSig => 4
  | .forLeft | .postfixExpr | .tsOperatorType => 5
  | .unaryExpr | .tsIntersection => 6
  | .exponentExpr | .tsUnion => 7
  | .tsType => 8
  | .tsTupleElem => 9
  | .level level => level.tier
  | .conditionalExpr => 19
  | .assignExpr => 20
  | .expression | .arrowBody | .argList => 21
  | .forInit | .forTest | .forUpdate | .exprStmt => 22
  | .statement => 23
  | .program => 24
  | rule => if ruleKind rule = .token then 2 else 3

/-- How far a rule goes inwards before a character is taken: no body is more than so deep. -/
def ranks (rule : Rule) : Nat := 25 * tier rule

/-- A rule that must take a character does, it goes no further than its tier allows, and so does what follows in it. -/
theorem body_ranked (r : Rule) :
    ((ruleBody r).mayBeEmpty mayBeEmpty = true → mayBeEmpty r = true) ∧
      (ruleBody r).rank mayBeEmpty ranks ≤ ranks r ∧
      (ruleBody r).paced mayBeEmpty ranks fuelPerChar = true := by
  cases r with
  | keyword word => cases word <;> decide
  | operator op => cases op <;> decide
  | level tier => cases tier <;> decide
  | _ => decide +kernel

end Grammar

theorem grammar_ranked : grammar.Ranked Grammar.mayBeEmpty Grammar.ranks fuelPerChar where
  empty_body := (Grammar.body_ranked _).1
  rank_body r := (Grammar.body_ranked r).2.1
  paced_body r := (Grammar.body_ranked r).2.2

/-- A source without a tree is one that the grammar does not match. -/
theorem matches_none_of_parse {source : List Char} {attempts : Peg.Attempts Rule}
    (parsed : grammar.parse fuelPerChar .program source = .error attempts) :
    Matches grammar (.call .program) .loose (Cursor.start source) none :=
  grammar_ranked.matches_none_of_parse grammar_wellFormed (by decide) parsed

end FlowScript
