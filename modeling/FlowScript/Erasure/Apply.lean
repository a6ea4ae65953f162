import FlowScript.Source.Edit
import FlowScript.Source.Span
import FlowScript.Source.Trailing

/-!
# Applying edits

Edits are applied in the order of their ranges; of two that overlap, the one that begins first, or else reaches
further, stands, and the other is dropped. An edit that takes its whole line is widened over the line's indentation and
its end when nothing else stands on the line.
-/

namespace FlowScript

/-- An edit whose range does not fall on character boundaries. -/
structure RangeError where
  start : Nat
  stop : Nat
deriving Repr, DecidableEq

/-- The wording of the error. -/
def RangeError.message (e : RangeError) : String :=
  "edit " ++ toString e.start ++ ".." ++ toString e.stop ++ " does not fall on character boundaries"

namespace Edit

/-- The order in which edits are applied: by start, and at one start the longer first. -/
def before (a b : Edit) : Bool :=
  a.start < b.start || (a.start == b.start && b.stop ≤ a.stop)

/-- Edits in the order in which they are applied; those of one range keep their order. -/
def sorted (edits : List Edit) : List Edit := edits.mergeSort before

/-- Characters that leave a line blank. -/
def isLineBlank (c : Char) : Bool :=
  c == ' ' || c == '\t' || c == '\r' || c == '\n'

/-- The text up to the end of its first line, line feed included. -/
def firstLine : List Char → List Char
  | [] => []
  | c :: r => if c = '\n' then [c] else c :: firstLine r

/-- The range to be replaced in a source of which everything up to `floor` is already settled. -/
def range (edit : Edit) (source : List Char) (floor : Nat) : Nat × Nat :=
  if edit.wholeLine then
    let leading := (Source.splitLastLine ((Text.takeBytes? source edit.start).getD [])).2
    let trailing := firstLine ((Text.dropBytes? source edit.stop).getD [])
    let lineStart := edit.start - Text.byteLength leading
    if floor ≤ lineStart && leading.all isLineBlank && trailing.all isLineBlank then
      (lineStart, edit.stop + Text.byteLength trailing)
    else (edit.start, edit.stop)
  else (edit.start, edit.stop)

/-- Whether an edit is left out, when everything up to `cursor` is already settled. -/
def isDropped (edit : Edit) (source : List Char) (cursor : Nat) : Bool :=
  edit.start < cursor || Text.byteLength source < edit.stop || edit.stop < edit.start

/-- The source from `cursor` on with sorted edits applied. -/
def applySorted (source : List Char) : (cursor : Nat) → List Edit → Except RangeError (List Char)
  | cursor, [] => .ok ((Text.dropBytes? source cursor).getD [])
  | cursor, edit :: edits =>
    if edit.isDropped source cursor then applySorted source cursor edits
    else if !Text.isBoundary source edit.start || !Text.isBoundary source edit.stop then
      .error ⟨edit.start, edit.stop⟩
    else do
      let (start, stop) := edit.range source cursor
      let rest ← applySorted source stop edits
      .ok ((Text.slice? source cursor start).getD [] ++ edit.replacement.toList ++ rest)

/-- The source with edits applied. -/
def applyAll (source : List Char) (edits : List Edit) : Except RangeError (List Char) :=
  applySorted source 0 (sorted edits)

/-- Without edits the source stays as it is. -/
theorem applyAll_nil (source : List Char) : applyAll source [] = .ok source := by
  simp [applyAll, sorted, applySorted]

end Edit
end FlowScript
