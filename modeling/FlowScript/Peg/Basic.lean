import FlowScript.Source.Span

/-!
# Parsing expression grammars

A grammar gives each rule a body, a parsing expression, and says how trivia (blanks and comments) may stand between
the parts of a body. Choices are ordered, and options and repetitions take all they can and give nothing back.
-/

namespace FlowScript

/-- A parsing expression over the rules `ρ`. -/
inductive Peg (ρ : Type)
  /-- Exactly these characters. -/
  | text (chars : List Char)
  /-- One character of a class. -/
  | char (test : Char → Bool)
  /-- Nothing, at the end of the input only. -/
  | inputEnd
  | call (rule : ρ)
  /-- Both in order, with trivia between them where the surroundings skip it. -/
  | seq (first second : Peg ρ)
  /-- The first of the two that matches. -/
  | alt (first second : Peg ρ)
  | opt (body : Peg ρ)
  /-- Any number of times, with trivia between the rounds. -/
  | star (body : Peg ρ)
  /-- Any number of further rounds, each after trivia. -/
  | more (body : Peg ρ)
  /-- Matches nothing, where the body would match. -/
  | ahead (body : Peg ρ)
  /-- Matches nothing, where the body would not match. -/
  | notAhead (body : Peg ρ)

namespace Peg

/-- How trivia is treated: skipped between parts; not skipped, as in a literal with inner structure (`compound`);
    or not skipped, and no parts told apart (`atomic`). -/
inductive Texture
  | loose | compound | atomic
deriving Repr, DecidableEq

/-- How a rule sets the texture of its body. -/
inductive RuleKind
  /-- The body has the texture of the place that calls the rule. -/
  | plain
  /-- A token: the body is atomic. -/
  | token
  /-- A literal with inner structure. -/
  | compound
  /-- Trivia is skipped again, also inside a literal. -/
  | loose
deriving Repr, DecidableEq

namespace RuleKind

/-- The texture at which a call of the rule counts, given that of the caller. -/
def atCall : RuleKind → Texture → Texture
  | plain, t | token, t => t
  | compound, _ => .compound
  | loose, _ => .loose

/-- The texture of the rule's body, given that of the caller. -/
def inBody : RuleKind → Texture → Texture
  | plain, t => t
  | token, _ => .atomic
  | compound, _ => .compound
  | loose, _ => .loose

end RuleKind

/-- A place in the input: the characters still to be read, and the position of the first. -/
structure Cursor where
  rest : List Char
  place : Position
deriving Repr, DecidableEq, Inhabited

namespace Cursor

/-- The place before the first character. -/
def start (input : List Char) : Cursor := ⟨input, .zero⟩

/-- The byte offset of the place. -/
def offset (c : Cursor) : Nat := c.place.offset

/-- The place after one character. -/
def next (place : Position) (c : Char) (rest : List Char) : Cursor := ⟨rest, place.next c⟩

/-- The place after the given characters, if they come next. -/
def after? : List Char → Cursor → Option Cursor
  | [], at_ => some at_
  | c :: cs, ⟨d :: rest, place⟩ => if c = d then after? cs (next place d rest) else none
  | _ :: _, ⟨[], _⟩ => none

end Cursor

/-- What a rule matched: from `start` up to `stop`, and the matches inside it. -/
inductive Derivation (ρ : Type)
  | node (rule : ρ) (start stop : Cursor) (children : List (Derivation ρ))

/-- A grammar over the rules `ρ`. -/
structure Grammar (ρ : Type) where
  body : ρ → Peg ρ
  kind : ρ → RuleKind
  /-- The place after the trivia that comes next. -/
  skip : Cursor → Cursor

variable {ρ : Type}

/-- The characters of a text. -/
def ofString (s : String) : Peg ρ := .text s.toList

/-- All parts in order. -/
def parts : List (Peg ρ) → Peg ρ
  | [] => .text []
  | [p] => p
  | p :: ps => .seq p (parts ps)

/-- The first alternative that matches. -/
def oneOf : List (Peg ρ) → Peg ρ
  | [] => .notAhead (.text [])
  | [p] => p
  | p :: ps => .alt p (oneOf ps)

/-- One time or more. -/
def plus (p : Peg ρ) : Peg ρ := .seq p (.star p)

/-- Any character. -/
def anyChar : Peg ρ := .char fun _ => true

/-- The longest chain of parts inside one another. -/
def depth : Peg ρ → Nat
  | .text _ | .char _ | .inputEnd | .call _ => 1
  | .seq a b | .alt a b => max a.depth b.depth + 1
  | .opt a | .star a | .more a | .ahead a | .notAhead a => a.depth + 1

namespace Derivation

def rule : Derivation ρ → ρ | node rule _ _ _ => rule
def start : Derivation ρ → Cursor | node _ start _ _ => start
def stop : Derivation ρ → Cursor | node _ _ stop _ => stop
def children : Derivation ρ → List (Derivation ρ) | node _ _ _ children => children

end Derivation
end Peg
end FlowScript
