import FlowScript.Proofs.Peg.Progress

/-!
# What stands around the trees in a match

The frame of an expression is the number of signs and calls that every match of it has. So each tree in a match leaves
room for the rest of the frame.
-/

namespace FlowScript.Peg
open FlowScript.Peg.Grammar (between)

variable {ρ : Type} {g : Grammar ρ}

/-- How many bytes every match takes at least: one for each character, and one for each call of a rule that takes some. -/
def frame (empty : ρ → Bool) : Peg ρ → Nat
  | .text chars => chars.length
  | .char _ => 1
  | .inputEnd | .opt _ | .star _ | .more _ | .ahead _ | .notAhead _ => 0
  | .call r => if empty r then 0 else 1
  | .seq a b => a.frame empty + b.frame empty
  | .alt a b => min (a.frame empty) (b.frame empty)

/-- The bytes that a match takes. -/
def Derivation.length (t : Derivation ρ) : Nat := t.stop.offset - t.start.offset

theorem length_le_byteLength (text : List Char) : text.length ≤ Text.byteLength text := by
  induction text with
  | nil => exact Nat.le_refl _
  | cons c r ih =>
    have := c.utf8Size_pos
    rw [List.length_cons, Text.byteLength]
    omega

theorem Cursor.Reaches.offset_add_length_le {c c' : Cursor} {text : List Char} (read : c.Reaches text c') :
    c.offset + text.length ≤ c'.offset := by
  have := length_le_byteLength text
  have := read.offset
  omega

namespace Matches

theorem offset_le (wf : g.WellFormed) {e : Peg ρ} {x : Texture} {c c' : Cursor} {ts : List (Derivation ρ)}
    (h : Matches g e x c (some (ts, c'))) : c.offset ≤ c'.offset := by
  obtain ⟨text, read⟩ := (h.chain wf).reaches
  have := read.offset
  omega

/-- An expression that cannot be empty takes a byte. -/
theorem offset_lt (wf : g.WellFormed) {empty : ρ → Bool} {ranks : ρ → Nat} {bound : Nat}
    (ranked : g.Ranked empty ranks bound) {e : Peg ρ} {x : Texture} {c c' : Cursor} {ts : List (Derivation ρ)}
    (h : Matches g e x c (some (ts, c'))) (takes : e.mayBeEmpty empty = false) : c.offset < c'.offset := by
  obtain ⟨text, read⟩ := (h.chain wf).reaches
  have := h.length_lt wf ranked takes
  have := read.length_eq
  have := read.offset_add_length_le
  omega

/-- A match takes its frame, and each tree in it leaves room for the frame without one call. -/
theorem framed (wf : g.WellFormed) {empty : ρ → Bool} {ranks : ρ → Nat} {bound : Nat}
    (ranked : g.Ranked empty ranks bound) {e : Peg ρ} {x : Texture} {c c' : Cursor} {ts : List (Derivation ρ)}
    (h : Matches g e x c (some (ts, c'))) :
    c.offset + e.frame empty ≤ c'.offset ∧
      ∀ t ∈ ts, t.length ≤ c'.offset - c.offset ∧ t.length + e.frame empty ≤ c'.offset - c.offset + 1 := by
  have called : ∀ {r x c ts c'}, Matches g (g.body r) ((g.kind r).inBody x) c (some (ts, c')) →
      c.offset + frame empty (.call r) ≤ c'.offset ∧ frame empty (.call r) ≤ 1 := by
    intro r x c ts c' body
    have stays := body.offset_le wf
    cases nothing : empty r with
    | true => simpa [frame, nothing] using stays
    | false =>
      have takes : (g.body r).mayBeEmpty empty = false := by
        rw [Bool.eq_false_iff]
        intro may
        rw [ranked.empty_body may] at nothing
        cases nothing
      have := body.offset_lt wf ranked takes
      simp [frame, nothing]
      omega
  induction h using Matches.success with
  | text comes => exact ⟨(Cursor.Reaches.of_after? comes).offset_add_length_le, List.forall_mem_nil _⟩
  | char passes => exact ⟨(Cursor.Reaches.one _ _ _).offset_add_length_le, List.forall_mem_nil _⟩
  | inputEnd | optNone | starNone | moreNone | ahead | notAhead => exact ⟨Nat.le_refl _, List.forall_mem_nil _⟩
  | @call r x c ts c' visible body ih =>
    obtain ⟨takes, one⟩ := called body
    refine ⟨takes, fun t mem => ?_⟩
    have same : t.length = c'.offset - c.offset := by rw [List.mem_singleton.1 mem]; rfl
    omega
  | callInToken hidden body ih =>
    obtain ⟨takes, one⟩ := called body
    refine ⟨takes, fun t mem => ?_⟩
    have := (ih.2 t mem).1
    omega
  | @seq a b x c ts c' us c'' first second ih₁ ih₂ =>
    obtain ⟨gap, skipped⟩ := between_reaches wf x c'
    have := skipped.offset
    have := first.offset_le wf
    have := second.offset_le wf
    obtain ⟨takes₁, trees₁⟩ := ih₁
    obtain ⟨takes₂, trees₂⟩ := ih₂
    rw [frame]
    refine ⟨by omega, fun t mem => ?_⟩
    rcases List.mem_append.1 mem with mem | mem
    · have := trees₁ t mem
      omega
    · have := trees₂ t mem
      omega
  | altFirst first ih =>
    rw [frame]
    refine ⟨by omega, fun t mem => ?_⟩
    have := ih.2 t mem
    omega
  | altSecond first second ih =>
    rw [frame]
    refine ⟨by omega, fun t mem => ?_⟩
    have := ih.2 t mem
    omega
  | opt body ih =>
    have := body.offset_le wf
    refine ⟨by rw [frame]; omega, fun t mem => ?_⟩
    have := ih.2 t mem
    rw [frame]
    omega
  | star first rounds ih₁ ih₂ =>
    have := first.offset_le wf
    have := rounds.offset_le wf
    rw [frame]
    refine ⟨by omega, fun t mem => ?_⟩
    rcases List.mem_append.1 mem with mem | mem
    · have := ih₁.2 t mem
      omega
    · have := ih₂.2 t mem
      omega
  | @more a x c ts c' us c'' first rounds ih₁ ih₂ =>
    obtain ⟨gap, skipped⟩ := between_reaches wf x c
    have := skipped.offset
    have := first.offset_le wf
    have := rounds.offset_le wf
    rw [frame]
    refine ⟨by omega, fun t mem => ?_⟩
    rcases List.mem_append.1 mem with mem | mem
    · have := ih₁.2 t mem
      omega
    · have := ih₂.2 t mem
      omega

end Matches
end FlowScript.Peg
