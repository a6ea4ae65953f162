import FlowScript.Proofs.Peg.Course
import FlowScript.Proofs.Text.Slice

/-!
# Places in a source

Reading from the start of a source only ever leads to character boundaries, and the line and column counted on the way
are those of the offset. What is read between two such places is the slice of the source between their offsets.
-/

namespace FlowScript

/-- A position of a source: a character boundary, with the line and column that belong to its offset. -/
structure Position.Within (source : List Char) (p : Position) : Prop where
  offset_le : p.offset ≤ Text.byteLength source
  boundary : Text.isBoundary source p.offset = true
  counted : p = Position.ofOffset source p.offset

namespace Position.Within

variable {source : List Char} {p q : Position}

/-- Two positions of a source at the same offset are the same. -/
theorem eq_of_offset_eq (hp : p.Within source) (hq : q.Within source) (same : p.offset = q.offset) : p = q := by
  rw [hp.counted, hq.counted, same]

end Position.Within

namespace Peg.Cursor.Reaches

variable {source text : List Char} {c d : Cursor}

/-- What is reached from the start of a source is a position of it. -/
theorem within (read : (Cursor.start source).Reaches text c) : c.place.Within source := by
  have whole : source = text ++ c.rest := read.rest
  have offset : c.place.offset = Text.byteLength text := by
    have := read.offset
    rwa [show (Cursor.start source).offset = 0 from rfl, Nat.zero_add] at this
  refine ⟨?_, ?_, ?_⟩
  · rw [offset, whole, Text.byteLength_append]
    omega
  · rw [offset, whole]
    exact Text.isBoundary_append text c.rest
  · rw [offset, whole, Position.ofOffset_byteLength]
    exact read.place

/-- What is read between two places of a source is the slice between their offsets. -/
theorem slice? {before : List Char} (here : (Cursor.start source).Reaches before c) (read : c.Reaches text d) :
    Text.slice? source c.offset d.offset = some text := by
  have whole : source = before ++ text ++ d.rest := (here.append read).rest
  have start := here.offset
  have stop := (here.append read).offset
  rw [show (Cursor.start source).offset = 0 from rfl, Nat.zero_add] at start stop
  rw [start, stop, whole, Text.slice?_append]

end Peg.Cursor.Reaches

/-- The smallest span that covers two of which the second begins and ends later. -/
theorem Span.merge_eq {source : List Char} {a b : Span} (starts : a.start.offset ≤ b.start.offset)
    (stops : a.stop.offset ≤ b.stop.offset) (ha : a.stop.Within source) (hb : b.stop.Within source) :
    a.merge b = ⟨a.start, b.stop⟩ := by
  rw [merge, if_pos starts]
  congr 1
  split
  · rename_i later
    exact ha.eq_of_offset_eq hb (Nat.le_antisymm stops later)
  · rfl

end FlowScript
