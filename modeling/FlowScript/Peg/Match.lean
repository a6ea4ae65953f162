import FlowScript.Peg.Basic

/-!
# Matching

One run tells what an expression matches at a place, and on the way notes which rules were tried in vain furthest to
the right (`Attempts`), which is what a failed parse reports. The notes never decide what matches.

The run spends one unit of fuel for each step inwards and each round of a repetition; `Grammar.parse` gives it enough
for every input, as no rule of a sensible grammar calls itself again at the same place.
-/

namespace FlowScript.Peg

/-- Whether a match is only looked at, and with which sign. -/
inductive Lookahead
  | none | positive | negative
deriving Repr, DecidableEq

namespace Lookahead

/-- Inside "what comes next must match". -/
def inAhead : Lookahead → Lookahead
  | none | positive => positive
  | negative => negative

/-- Inside "what comes next must not match". -/
def inNotAhead : Lookahead → Lookahead
  | none | positive => negative
  | negative => positive

end Lookahead

/-- The rules tried in vain at the rightmost offset so far: those expected there and did not match, and those that
    matched though they must not. -/
structure Attempts (ρ : Type) where
  offset : Nat
  expected : Array ρ
  unexpected : Array ρ

namespace Attempts

variable {ρ : Type}

/-- Nothing tried yet. -/
def empty : Attempts ρ := ⟨0, #[], #[]⟩

/-- How many rules are noted at an offset. -/
def count (t : Attempts ρ) (offset : Nat) : Nat :=
  if t.offset = offset then t.expected.size + t.unexpected.size else 0

/-- How many rules of either list are noted at an offset. -/
def sizes (t : Attempts ρ) (offset : Nat) : Nat × Nat :=
  if t.offset = offset then (t.expected.size, t.unexpected.size) else (0, 0)

/-- Notes a rule tried at `offset`. `before` are the sizes of the lists when the rule was called: a rule that has
    noted exactly one rule inside it leaves that more precise note, and otherwise takes the place of its own. -/
def note (t : Attempts ρ) (rule : ρ) (negative : Bool) (offset : Nat) (before : Nat × Nat) : Attempts ρ :=
  if t.count offset = before.1 + before.2 + 1 then t
  else
    let t :=
      if offset = t.offset then ⟨offset, t.expected.take before.1, t.unexpected.take before.2⟩
      else if t.offset < offset then ⟨offset, #[], #[]⟩
      else t
    if offset = t.offset then
      if negative then { t with unexpected := t.unexpected.push rule }
      else { t with expected := t.expected.push rule }
    else t

end Attempts

/-- What came of matching an expression at a place. -/
inductive Outcome (ρ : Type)
  /-- The fuel ran out. -/
  | exhausted
  | failed (attempts : Attempts ρ)
  | matched (trees : List (Derivation ρ)) (stop : Cursor) (attempts : Attempts ρ)

namespace Grammar

variable {ρ : Type} (g : Grammar ρ)

/-- Trivia between two parts: skipped where the texture is loose. -/
def between : Texture → Cursor → Cursor
  | .loose, c => g.skip c
  | .compound, c | .atomic, c => c

/-- What a call of a rule makes of the outcome of its body. A note is taken when the rule fails, or matches where it
    must not; a tree is made unless the match is only looked at or part of a token. -/
def close (rule : ρ) (texture : Texture) (look : Lookahead) (c : Cursor) (before : Nat × Nat) : Outcome ρ → Outcome ρ
  | .exhausted => .exhausted
  | .failed t =>
    .failed (if texture ≠ .atomic ∧ look ≠ .negative then t.note rule false c.offset before else t)
  | .matched trees stop t =>
    .matched (if texture ≠ .atomic ∧ look = .none then [.node rule c stop trees] else trees) stop
      (if texture ≠ .atomic ∧ look = .negative then t.note rule true c.offset before else t)

/-- What an expression matches at a place. -/
def run : Nat → Peg ρ → Texture → Lookahead → Cursor → Attempts ρ → Outcome ρ
  | 0, _, _, _, _, _ => .exhausted
  | fuel + 1, e, texture, look, c, t =>
    match e with
    | .text chars =>
      match c.after? chars with
      | some c' => .matched [] c' t
      | none => .failed t
    | .char test =>
      match c with
      | ⟨d :: rest, place⟩ => if test d then .matched [] (Cursor.next place d rest) t else .failed t
      | ⟨[], _⟩ => .failed t
    | .inputEnd => if c.rest.isEmpty then .matched [] c t else .failed t
    | .call rule =>
      let kind := g.kind rule
      close rule (kind.atCall texture) look c (t.sizes c.offset)
        (run fuel (g.body rule) (kind.inBody texture) look c t)
    | .seq a b =>
      match run fuel a texture look c t with
      | .matched as c' t' =>
        match run fuel b texture look (g.between texture c') t' with
        | .matched bs c'' t'' => .matched (as ++ bs) c'' t''
        | o => o
      | o => o
    | .alt a b =>
      match run fuel a texture look c t with
      | .failed t' => run fuel b texture look c t'
      | o => o
    | .opt a =>
      match run fuel a texture look c t with
      | .failed t' => .matched [] c t'
      | o => o
    | .star a =>
      match run fuel a texture look c t with
      | .failed t' => .matched [] c t'
      | .matched as c' t' =>
        match run fuel (.more a) texture look c' t' with
        | .matched bs c'' t'' => .matched (as ++ bs) c'' t''
        | o => o
      | .exhausted => .exhausted
    | .more a =>
      match run fuel a texture look (g.between texture c) t with
      | .failed t' => .matched [] c t'
      | .matched as c' t' =>
        match run fuel (.more a) texture look c' t' with
        | .matched bs c'' t'' => .matched (as ++ bs) c'' t''
        | o => o
      | .exhausted => .exhausted
    | .ahead a =>
      match run fuel a texture look.inAhead c t with
      | .matched _ _ t' => .matched [] c t'
      | o => o
    | .notAhead a =>
      match run fuel a texture look.inNotAhead c t with
      | .matched _ _ t' => .failed t'
      | .failed t' => .matched [] c t'
      | .exhausted => .exhausted

/-- The tree of the whole input under a rule, or the attempts that failed. -/
def parse (fuelPerChar : Nat) (rule : ρ) (input : List Char) : Except (Attempts ρ) (Derivation ρ) :=
  match g.run ((input.length + 1) * fuelPerChar) (.call rule) .loose .none (Cursor.start input) .empty with
  | .matched [tree] _ _ => .ok tree
  | .matched _ _ t => .error t
  | .failed t => .error t
  | .exhausted => .error .empty

end Grammar
end FlowScript.Peg
