import FlowScript.Ast.Basic
import FlowScript.Grammar.Rule

/-!
# How tightly expressions bind

The levels of the grammar of expressions, from a spread, which is no expression by itself, over sequences to what needs no
parentheses anywhere.
-/

namespace FlowScript

/-- The levels on which expressions stand, loosest first. -/
inductive Precedence
  | spread | sequence | assign | conditional | nullish | or | and | bitOr | bitXor | bitAnd | equality | relational
  | shift | additive | multiplicative | exponent | unary | update | call | primary
deriving Repr, DecidableEq

namespace Precedence

/-- The number of looser levels. -/
def rank : Precedence → Nat
  | spread => 0
  | sequence => 1
  | assign => 2
  | conditional => 3
  | nullish => 4
  | or => 5
  | and => 6
  | bitOr => 7
  | bitXor => 8
  | bitAnd => 9
  | equality => 10
  | relational => 11
  | shift => 12
  | additive => 13
  | multiplicative => 14
  | exponent => 15
  | unary => 16
  | update => 17
  | call => 18
  | primary => 19

instance : LE Precedence := ⟨fun p q => p.rank ≤ q.rank⟩
instance : LT Precedence := ⟨fun p q => p.rank < q.rank⟩

instance (p q : Precedence) : Decidable (p ≤ q) := inferInstanceAs (Decidable (p.rank ≤ q.rank))
instance (p q : Precedence) : Decidable (p < q) := inferInstanceAs (Decidable (p.rank < q.rank))

theorem le_refl (p : Precedence) : p ≤ p := Nat.le_refl _

theorem le_trans {p q r : Precedence} (first : p ≤ q) (second : q ≤ r) : p ≤ r := Nat.le_trans first second

theorem lt_of_lt_of_le {p q r : Precedence} (first : p < q) (second : q ≤ r) : p < r := Nat.lt_of_lt_of_le first second

end Precedence

/-- The level of an operator's expressions. -/
def BinaryOp.precedence : BinaryOp → Precedence
  | .nullish => .nullish
  | .or => .or
  | .and => .and
  | .bitOr => .bitOr
  | .bitXor => .bitXor
  | .bitAnd => .bitAnd
  | .strictEq | .strictNe | .eq | .ne => .equality
  | .lt | .lte | .gt | .gte | .instanceOf | .inside => .relational
  | .shl | .shr | .ushr => .shift
  | .add | .sub => .additive
  | .mul | .div | .mod => .multiplicative
  | .exp => .exponent

/-- The level of what a level of left-associative operators makes. -/
def Grammar.Level.precedence : Grammar.Level → Precedence
  | nullish => .nullish
  | logicalOr => .or
  | logicalAnd => .and
  | bitOr => .bitOr
  | bitXor => .bitXor
  | bitAnd => .bitAnd
  | equality => .equality
  | relational => .relational
  | shift => .shift
  | additive => .additive
  | multiplicative => .multiplicative

namespace Expr

/-- The level of an expression. -/
def precedence : Expr → Precedence
  | spread .. => .spread
  | sequence .. => .sequence
  | assign .. | arrow .. => .assign
  | conditional .. => .conditional
  | binary op _ _ _ => op.precedence
  | unary .. | await .. => .unary
  | update _ before _ _ => if before then .unary else .update
  | call .. | member .. | index .. | taggedTemplate .. => .call
  | ident .. | this _ | num .. | str .. | bool .. | null _ | regex .. | template .. | array .. | object .. | function ..
  | new .. | paren .. => .primary

/-- Whether the expression may be what `new` constructs: no call and no optional chain before its arguments. -/
def isConstructor : Expr → Bool
  | member inner _ optional _ => !optional && inner.isConstructor
  | index inner _ optional _ => !optional && inner.isConstructor
  | e => e.precedence = .primary

theorem call_le_of_isConstructor {e : Expr} (h : e.isConstructor = true) : .call ≤ e.precedence := by
  unfold isConstructor at h
  split at h
  · exact Nat.le_refl _
  · exact Nat.le_refl _
  · rw [of_decide_eq_true h]
    decide

theorem isConstructor_of_primary_le {e : Expr} (h : .primary ≤ e.precedence) : e.isConstructor = true := by
  have loose : ¬ Precedence.primary ≤ .call := by decide
  unfold isConstructor
  split
  · exact absurd h loose
  · exact absurd h loose
  · refine decide_eq_true ?_
    cases level : e.precedence <;> first | rfl | exact absurd (level ▸ h) (by decide)

end Expr
end FlowScript
