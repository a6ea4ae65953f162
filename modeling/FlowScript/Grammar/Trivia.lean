import FlowScript.Peg.Basic

/-!
# Trivia

Blanks and comments between tokens. A line comment ends before a line feed or a carriage return; a block comment that
is never closed is no comment. One pass over the characters finds the end of the trivia (`skip`); it
stays where a token begins (`skip_of_token`).
-/

namespace FlowScript.Grammar.Trivia
open FlowScript.Peg (Cursor)

/-- The blanks that may stand between tokens. -/
def isBlank (c : Char) : Bool :=
  c == ' ' || c == '\t' || c == '\r' || c == '\n' || c == '\x0b' || c == '\x0c' || c == '\u00a0' || c == '\ufeff'
    || c == '\u2028' || c == '\u2029'

/-- Whether a character ends a line comment. -/
def endsLine (c : Char) : Bool :=
  c == '\n' || c == '\r'

/-- Where the pass stands: between tokens, in a line comment, or in a block comment that began at `opened`. -/
inductive Place
  | between | line | block (opened : Cursor)

/-- The end of the trivia, read on from a place in it. -/
def scan : Place → List Char → Position → Cursor
  | .between, [], n => ⟨[], n⟩
  | .between, [c], n => if isBlank c then ⟨[], n.next c⟩ else ⟨[c], n⟩
  | .between, c :: d :: r, n =>
    if isBlank c then scan .between (d :: r) (n.next c)
    else if c = '/' ∧ d = '/' then scan .line r ((n.next c).next d)
    else if c = '/' ∧ d = '*' then scan (.block ⟨c :: d :: r, n⟩) r ((n.next c).next d)
    else ⟨c :: d :: r, n⟩
  | .line, [], n => ⟨[], n⟩
  | .line, c :: r, n => scan (if endsLine c then .between else .line) r (n.next c)
  | .block opened, [], _ => opened
  | .block opened, [_], _ => opened
  | .block opened, c :: d :: r, n =>
    if c = '*' ∧ d = '/' then scan .between r ((n.next c).next d) else scan (.block opened) (d :: r) (n.next c)

/-- The place after the trivia that comes next. -/
def skip (c : Cursor) : Cursor :=
  scan .between c.rest c.place

/-- A pass between tokens stays before a character that neither is a blank nor may open a comment. -/
theorem skip_of_token {c : Char} {r : List Char} {n : Position} (slash : c ≠ '/') (blank : isBlank c = false) :
    skip ⟨c :: r, n⟩ = ⟨c :: r, n⟩ := by
  cases r <;> simp [skip, scan, slash, blank]

end FlowScript.Grammar.Trivia
