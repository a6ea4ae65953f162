import FlowScript.Text.Slice

/-!
# Positions and spans

A position is a byte offset with its line and column; both count from zero, columns count characters, and only a
line feed ends a line. A span runs from one position to another.
-/

namespace FlowScript

/-- A place in a source text. -/
structure Position where
  offset : Nat
  line : Nat
  column : Nat
deriving Repr, DecidableEq, Inhabited

/-- The part of a source text from `start` up to `stop`. -/
structure Span where
  start : Position
  stop : Position
deriving Repr, DecidableEq, Inhabited

namespace Position

/-- The beginning of every text. -/
def zero : Position := ⟨0, 0, 0⟩

/-- The position after a character that stands at a position. -/
def next (p : Position) (c : Char) : Position :=
  if c = '\n' then ⟨p.offset + c.utf8Size, p.line + 1, 0⟩ else ⟨p.offset + c.utf8Size, p.line, p.column + 1⟩

/-- Line and column of an offset, read on from a line and column. An offset inside a character or beyond the end
    keeps the line it falls on and has column zero. -/
def lineColumnFrom (line column : Nat) : List Char → Nat → Nat × Nat
  | _, 0 => (line, column)
  | [], _ + 1 => (line, 0)
  | c :: r, n + 1 =>
    if c.utf8Size ≤ n + 1 then
      if c = '\n' then lineColumnFrom (line + 1) 0 r (n + 1 - c.utf8Size)
      else lineColumnFrom line (column + 1) r (n + 1 - c.utf8Size)
    else (line, 0)

/-- Line and column of an offset. -/
def lineColumn (source : List Char) (offset : Nat) : Nat × Nat :=
  lineColumnFrom 0 0 source offset

/-- The position at an offset. -/
def ofOffset (source : List Char) (offset : Nat) : Position :=
  let (line, column) := lineColumn source offset
  ⟨offset, line, column⟩

theorem lineColumnFrom_cons (line column : Nat) (c : Char) (r : List Char) (n : Nat) :
    lineColumnFrom line column (c :: r) (c.utf8Size + n) =
      if c = '\n' then lineColumnFrom (line + 1) 0 r n else lineColumnFrom line (column + 1) r n := by
  obtain ⟨k, size⟩ : ∃ k, c.utf8Size + n = k + 1 := ⟨c.utf8Size + n - 1, by have := c.utf8Size_pos; omega⟩
  rw [size, lineColumnFrom, if_pos (by omega), ← size, Nat.add_sub_cancel_left]

@[simp] theorem lineColumnFrom_zero (line column : Nat) (cs : List Char) :
    lineColumnFrom line column cs 0 = (line, column) := by
  cases cs <;> rfl

theorem offset_foldl_next (p : Position) (text : List Char) :
    (text.foldl next p).offset = p.offset + Text.byteLength text := by
  induction text generalizing p with
  | nil => rfl
  | cons c r ih =>
    rw [List.foldl_cons, ih, Text.byteLength, ← Nat.add_assoc]
    by_cases feed : c = '\n' <;> simp [next, feed]

/-- Counting on behind a text starts at the position behind it. -/
theorem lineColumnFrom_append (p : Position) (text rest : List Char) (n : Nat) :
    lineColumnFrom p.line p.column (text ++ rest) (Text.byteLength text + n) =
      lineColumnFrom (text.foldl next p).line (text.foldl next p).column rest n := by
  induction text generalizing p with
  | nil => rw [Text.byteLength, Nat.zero_add, List.nil_append, List.foldl_nil]
  | cons c r ih =>
    rw [List.cons_append, Text.byteLength, Nat.add_assoc, lineColumnFrom_cons, List.foldl_cons, ← ih (next p c)]
    by_cases feed : c = '\n' <;> simp [next, feed]

/-- Positions counted from the start of a source are those of the offsets in it. -/
theorem ofOffset_byteLength (text rest : List Char) :
    ofOffset (text ++ rest) (Text.byteLength text) = text.foldl next zero := by
  have counted := lineColumnFrom_append zero text rest 0
  have offset := offset_foldl_next zero text
  simp only [zero, Nat.add_zero, Nat.zero_add, lineColumnFrom_zero] at counted offset
  rw [ofOffset, lineColumn, counted, ← offset]
  rfl

end Position

namespace Span

/-- The span of a node that no source text stands behind. -/
def none : Span := ⟨Position.zero, Position.zero⟩

/-- The span between two offsets. -/
def ofOffsets (source : List Char) (start stop : Nat) : Span :=
  ⟨Position.ofOffset source start, Position.ofOffset source stop⟩

/-- The smallest span that covers both. -/
def merge (a b : Span) : Span where
  start := if a.start.offset ≤ b.start.offset then a.start else b.start
  stop := if a.stop.offset ≥ b.stop.offset then a.stop else b.stop

/-- The covered text; empty unless both ends are character boundaries in order. -/
def text (span : Span) (source : List Char) : List Char :=
  (Text.slice? source span.start.offset span.stop.offset).getD []

@[simp] theorem merge_self (a : Span) : a.merge a = a := by
  simp [merge]

end Span
end FlowScript
