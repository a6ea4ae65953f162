import FlowScript.Proofs.Erasure.Lines
import FlowScript.Proofs.Text.Ink

/-!
# Edits that take ink away

An edit cuts a source when it stands between two places of it and puts less ink in than it takes out. Edits that all
cut are applied without an error, and as the first of them is never left out, the text they leave has less ink than the
source, unless there are none.
-/

namespace FlowScript
open Text (byteLength byteLength_append ink)

namespace Edit

/-- The edit replaces a part of the source by a text with less ink. -/
def Cuts (source : List Char) (edit : Edit) : Prop :=
  ∃ before old after, source = before ++ old ++ after ∧ edit.start = byteLength before ∧
    edit.stop = byteLength (before ++ old) ∧ ink edit.replacement.toList < ink old

theorem exists_append_of_byteLength_le {p q a r : List Char} (same : p ++ q = a ++ r)
    (le : byteLength p ≤ byteLength a) : ∃ mid, a = p ++ mid := by
  rcases List.append_eq_append_iff.1 same with ⟨mid, rfl, -⟩ | ⟨mid, rfl, -⟩
  · exact ⟨mid, rfl⟩
  · have : mid = [] := by
      rw [byteLength_append] at le
      exact Text.byteLength_eq_zero.1 (by omega)
    exact ⟨[], by simp [this]⟩

theorem eq_of_byteLength_eq {p q a r : List Char} (same : p ++ q = a ++ r) (size : byteLength p = byteLength a) :
    p = a := by
  obtain ⟨mid, rfl⟩ := exists_append_of_byteLength_le same size.le
  rw [byteLength_append] at size
  rw [Text.byteLength_eq_zero.1 (by omega : byteLength mid = 0), List.append_nil]

/-- The range that an edit replaces is its own, or that with the blanks of its lines on both sides, where nothing is
    settled yet. -/
theorem exists_range {edit : Edit} {before old : List Char} (after : List Char) {floor : Nat}
    (start : edit.start = byteLength before) (stop : edit.stop = byteLength (before ++ old))
    (free : floor ≤ edit.start) :
    ∃ a lead trail b, before = a ++ lead ∧ after = trail ++ b ∧ lead.all isLineBlank = true ∧
      trail.all isLineBlank = true ∧ floor ≤ byteLength a ∧
      edit.range (before ++ old ++ after) floor = (byteLength a, byteLength (before ++ old ++ trail)) := by
  obtain ⟨a, lead, trail, b, ends, begins, low, range, widened⟩ := exists_range_lines after start stop free
  refine ⟨a, lead, trail, b, ends, begins, ?_, ?_, low, range⟩
  · rcases widened with ⟨rfl, -⟩ | ⟨-, line⟩
    · rfl
    · exact line.lead_blank
  · rcases widened with ⟨-, rfl⟩ | ⟨-, line⟩
    · rfl
    · exact line.trail_blank

/-- The range that an edit replaces covers that of the edit, and begins where nothing is settled yet. -/
theorem range_covers {edit : Edit} {before old : List Char} (after : List Char) {floor : Nat}
    (start : edit.start = byteLength before) (stop : edit.stop = byteLength (before ++ old))
    (free : floor ≤ edit.start) :
    ∃ a wide b, before ++ old ++ after = a ++ wide ++ b ∧
      edit.range (before ++ old ++ after) floor = (byteLength a, byteLength (a ++ wide)) ∧ floor ≤ byteLength a ∧
      old <:+: wide := by
  obtain ⟨a, lead, trail, b, rfl, rfl, -, -, low, range⟩ := exists_range after start stop free
  exact ⟨a, lead ++ old ++ trail, b, by simp, by simpa using range, low, ⟨lead, trail, rfl⟩⟩

/-- An edit that cuts lies in the source, so it is left out only where it begins in what is settled. -/
theorem Cuts.isDropped_eq {source : List Char} {edit : Edit} (cuts : edit.Cuts source) (cursor : Nat) :
    edit.isDropped source cursor = decide (edit.start < cursor) := by
  obtain ⟨before, old, after, rfl, start, stop, -⟩ := cuts
  have inside : ¬byteLength (before ++ old ++ after) < edit.stop := by
    rw [stop, byteLength_append (before ++ old) after]
    omega
  have ordered : ¬edit.stop < edit.start := by
    rw [start, stop, byteLength_append]
    omega
  rw [isDropped, decide_eq_false inside, decide_eq_false ordered, Bool.or_false, Bool.or_false]

theorem Cuts.isBoundary {source : List Char} {edit : Edit} (cuts : edit.Cuts source) :
    Text.isBoundary source edit.start = true ∧ Text.isBoundary source edit.stop = true := by
  obtain ⟨before, old, after, rfl, start, stop, -⟩ := cuts
  refine ⟨?_, ?_⟩
  · rw [start, List.append_assoc, Text.isBoundary_append]
  · rw [stop, Text.isBoundary_append]

/-- An edit that is not left out takes ink from the text in which it is applied. -/
theorem applySorted_cons {edit : Edit} {edits : List Edit} {p q : List Char} (cuts : edit.Cuts (p ++ q))
    (free : byteLength p ≤ edit.start)
    (rest : ∀ p' q', p' ++ q' = p ++ q →
      ∃ out, applySorted (p ++ q) (byteLength p') edits = .ok out ∧ ink out ≤ ink q') :
    ∃ out, applySorted (p ++ q) (byteLength p) (edit :: edits) = .ok out ∧ ink out < ink q := by
  have kept : edit.isDropped (p ++ q) (byteLength p) = false := by
    rw [cuts.isDropped_eq, decide_eq_false_iff_not]
    omega
  obtain ⟨startsAt, stopsAt⟩ := cuts.isBoundary
  obtain ⟨before, old, after, whole, start, stop, less⟩ := cuts
  obtain ⟨a, wide, b, same, range, low, covered⟩ := range_covers after start stop free
  rw [← whole] at same range
  obtain ⟨mid, rfl⟩ := exists_append_of_byteLength_le (same.trans (List.append_assoc a wide b)) low
  obtain ⟨out, applied, le⟩ := rest (p ++ mid ++ wide) b same.symm
  have between : Text.slice? (p ++ q) (byteLength p) (byteLength (p ++ mid)) = some mid := by
    rw [same, List.append_assoc (p ++ mid), Text.slice?_append]
  refine ⟨mid ++ edit.replacement.toList ++ out, ?_, ?_⟩
  · rw [applySorted, kept, startsAt, stopsAt, range]
    simp only [Bool.not_true, Bool.or_self, Bool.false_eq_true, if_false, applied, between]
    rfl
  · have rest : q = mid ++ wide ++ b := by simpa using same
    have wider := Text.ink_le_of_infix covered
    rw [rest]
    simp only [Text.ink_append]
    omega

/-- Edits that cut the source are applied, and add no ink. -/
theorem applySorted_ink_le {source : List Char} {edits : List Edit} (cuts : ∀ e ∈ edits, e.Cuts source) :
    ∀ p q, p ++ q = source → ∃ out, applySorted source (byteLength p) edits = .ok out ∧ ink out ≤ ink q := by
  induction edits with
  | nil =>
    rintro p q rfl
    exact ⟨q, by rw [applySorted, Text.dropBytes?_append]; rfl, le_refl _⟩
  | cons edit edits ih =>
    obtain ⟨first, others⟩ := List.forall_mem_cons.1 cuts
    have ih := ih others
    rintro p q rfl
    by_cases free : byteLength p ≤ edit.start
    · obtain ⟨out, applied, less⟩ := applySorted_cons first free ih
      exact ⟨out, applied, le_of_lt less⟩
    · obtain ⟨out, applied, le⟩ := ih p q rfl
      refine ⟨out, ?_, le⟩
      rw [applySorted, first.isDropped_eq, decide_eq_true (by omega), if_pos rfl, applied]

theorem mem_sorted {e : Edit} {edits : List Edit} : e ∈ sorted edits ↔ e ∈ edits :=
  (List.mergeSort_perm edits before).mem_iff

/-- Edits that cut the source are applied without an error and leave less ink, unless there are none. -/
theorem applyAll_ink {source : List Char} {edits : List Edit} (cuts : ∀ e ∈ edits, e.Cuts source) :
    ∃ out, applyAll source edits = .ok out ∧ ink out ≤ ink source ∧ (edits ≠ [] → ink out < ink source) := by
  have cutsSorted : ∀ e ∈ sorted edits, e.Cuts source := fun e mem => cuts e (mem_sorted.1 mem)
  unfold applyAll
  cases order : sorted edits with
  | nil =>
    have none : edits = [] := by
      have := (List.mergeSort_perm edits before).length_eq
      rw [show edits.mergeSort before = [] from order] at this
      exact List.length_eq_zero_iff.1 this.symm
    have noCuts : ∀ e ∈ ([] : List Edit), e.Cuts source := List.forall_mem_nil _
    obtain ⟨out, applied, le⟩ := applySorted_ink_le noCuts [] source rfl
    exact ⟨out, applied, le, fun some => absurd none some⟩
  | cons edit rest =>
    obtain ⟨first, others⟩ := List.forall_mem_cons.1 (order ▸ cutsSorted)
    obtain ⟨out, applied, less⟩ := applySorted_cons (p := []) first (Nat.zero_le _) (applySorted_ink_le others)
    exact ⟨out, applied, le_of_lt less, fun _ => less⟩

end Edit
end FlowScript
