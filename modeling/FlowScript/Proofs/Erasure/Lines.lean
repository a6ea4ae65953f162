import FlowScript.Erasure.Apply
import FlowScript.Proofs.Text.Slice
import FlowScript.Source.Trailing

/-!
# Edits and the lines they stand on

An edit replaces its own range or, if it takes its line, the range of the lines it stands on, when only blanks share
them with it and nothing of them is settled yet.
-/

namespace FlowScript
open Text (byteLength byteLength_append)

namespace Edit

/-- Blanks around a part of a text that go up to the ends of its lines. -/
structure FillsLine (before lead trail after : List Char) : Prop where
  lead_blank : lead.all isLineBlank = true
  trail_blank : trail.all isLineBlank = true
  lead_line : '\n' ∉ lead
  starts : before = [] ∨ before.getLast? = some '\n'
  ends : (∃ blanks, trail = blanks ++ ['\n'] ∧ '\n' ∉ blanks) ∨ ('\n' ∉ trail ∧ after = [])

theorem splitLastLine_ends (cs : List Char) :
    '\n' ∉ (Source.splitLastLine cs).2 ∧
      ((Source.splitLastLine cs).1 = [] ∨ (Source.splitLastLine cs).1.getLast? = some '\n') := by
  induction cs with
  | nil => exact ⟨List.not_mem_nil, .inl rfl⟩
  | cons c r ih =>
    obtain ⟨line, before⟩ := ih
    unfold Source.splitLastLine
    split
    · rename_i last same
      rw [same] at line
      split
      · rename_i feed
        exact ⟨line, .inr (by rw [feed]; rfl)⟩
      · rename_i other
        exact ⟨by simpa [Ne.symm other] using line, .inl rfl⟩
    · rename_i before' last some same
      rw [same] at line before
      refine ⟨line, .inr ?_⟩
      have last := before.resolve_left some
      rw [List.getLast?_cons, last]
      rfl

/-- The first line of a text ends with its line feed, or the text ends with it. -/
theorem firstLine_ends (cs : List Char) :
    (∃ line rest, cs = line ++ '\n' :: rest ∧ firstLine cs = line ++ ['\n'] ∧ '\n' ∉ line) ∨
      (firstLine cs = cs ∧ '\n' ∉ cs) := by
  induction cs with
  | nil => exact .inr ⟨rfl, List.not_mem_nil⟩
  | cons c r ih =>
    unfold firstLine
    split
    · rename_i feed
      exact .inl ⟨[], r, by rw [feed]; rfl, by rw [feed]; rfl, List.not_mem_nil⟩
    · rename_i other
      rcases ih with ⟨line, rest, rfl, first, none⟩ | ⟨first, none⟩
      · exact .inl ⟨c :: line, rest, rfl, by rw [first]; rfl, by simpa [Ne.symm other] using none⟩
      · exact .inr ⟨by rw [first], by simpa [Ne.symm other] using none⟩

theorem firstLine_isPrefix (cs : List Char) : firstLine cs <+: cs := by
  rcases firstLine_ends cs with ⟨line, rest, whole, first, -⟩ | ⟨first, -⟩
  · exact ⟨rest, by rw [first, whole, List.append_assoc]; rfl⟩
  · exact ⟨[], by rw [first, List.append_nil]⟩

/-- The range that an edit replaces is its own, or that of the lines it stands on. -/
theorem exists_range_lines {edit : Edit} {before old : List Char} (after : List Char) {floor : Nat}
    (start : edit.start = byteLength before) (stop : edit.stop = byteLength (before ++ old))
    (free : floor ≤ edit.start) :
    ∃ a lead trail b, before = a ++ lead ∧ after = trail ++ b ∧ floor ≤ byteLength a ∧
      edit.range (before ++ old ++ after) floor = (byteLength a, byteLength (before ++ old ++ trail)) ∧
      ((lead = [] ∧ trail = []) ∨ (edit.wholeLine = true ∧ FillsLine a lead trail b)) := by
  have asIs : ∃ a lead trail b, before = a ++ lead ∧ after = trail ++ b ∧ floor ≤ byteLength a ∧
      (edit.start, edit.stop) = (byteLength a, byteLength (before ++ old ++ trail)) ∧
      ((lead = [] ∧ trail = []) ∨ (edit.wholeLine = true ∧ FillsLine a lead trail b)) :=
    ⟨before, [], [], after, by simp, rfl, start ▸ free, by rw [start, stop, List.append_nil], .inl ⟨rfl, rfl⟩⟩
  unfold range
  split
  · rename_i wholeLine
    have taken : Text.takeBytes? (before ++ old ++ after) edit.start = some before := by
      rw [start, List.append_assoc, Text.takeBytes?_append]
    have dropped : Text.dropBytes? (before ++ old ++ after) edit.stop = some after := by
      rw [stop, Text.dropBytes?_append]
    simp only [taken, dropped, Option.getD_some]
    split
    · rename_i blank
      simp only [Bool.and_eq_true, decide_eq_true_eq] at blank
      obtain ⟨⟨low, blankBefore⟩, blankAfter⟩ := blank
      have line := Source.splitLastLine_append before
      obtain ⟨noFeed, starts⟩ := splitLastLine_ends before
      have lineStart : edit.start - byteLength (Source.splitLastLine before).2 =
          byteLength (Source.splitLastLine before).1 := by
        have length := congrArg byteLength line
        rw [byteLength_append] at length
        omega
      have range_eq : ∀ trail, (byteLength (Source.splitLastLine before).1, edit.stop + byteLength trail) =
          (byteLength (Source.splitLastLine before).1, byteLength (before ++ old ++ trail)) := by
        intro trail
        rw [stop, byteLength_append (before ++ old)]
      rw [lineStart] at low ⊢
      rcases firstLine_ends after with ⟨blanks, rest, whole, first, none⟩ | ⟨first, none⟩
      · refine ⟨_, _, blanks ++ ['\n'], rest, line.symm, by simpa using whole, low, ?_, .inr ⟨wholeLine, ?_⟩⟩
        · rw [first, range_eq]
        · exact ⟨blankBefore, first ▸ blankAfter, noFeed, starts, .inl ⟨blanks, rfl, none⟩⟩
      · refine ⟨_, _, after, [], line.symm, by simp, low, ?_, .inr ⟨wholeLine, ?_⟩⟩
        · rw [first, range_eq]
        · exact ⟨blankBefore, first ▸ blankAfter, noFeed, starts, .inr ⟨none, rfl⟩⟩
    · exact asIs
  · exact asIs

end Edit
end FlowScript
