import FlowScript.Grammar.Trivia
import FlowScript.Proofs.Peg.Course

/-!
# Skipping trivia

The pass over trivia reads a text like any other match, and where it stops there is no more trivia: a second pass goes
no further, also before a block comment that is never closed.
-/

namespace FlowScript.Grammar.Trivia
open FlowScript.Peg (Cursor)

private theorem reaches_cons {c : Char} {r : List Char} {n : Position} {stop : Cursor}
    (h : ∃ text, Cursor.Reaches ⟨r, n.next c⟩ text stop) : ∃ text, Cursor.Reaches ⟨c :: r, n⟩ text stop := by
  obtain ⟨text, read⟩ := h
  exact ⟨_, (Cursor.Reaches.one n c r).append read⟩

/-- The pass reads on from where it is, unless it is in a block comment that is never closed. -/
private theorem scan_reaches (place : Place) (cs : List Char) (n : Position) :
    (∃ text, Cursor.Reaches ⟨cs, n⟩ text (scan place cs n)) ∨ place = .block (scan place cs n) := by
  fun_induction scan place cs n with
  | case1 n => exact .inl ⟨[], .refl _⟩
  | case2 c n blank => exact .inl (reaches_cons ⟨[], .refl _⟩)
  | case3 c n ink => exact .inl ⟨[], .refl _⟩
  | case4 c d r n blank ih => exact .inl (reaches_cons (ih.resolve_right Place.noConfusion))
  | case5 c d r n ink line ih => exact .inl (reaches_cons (reaches_cons (ih.resolve_right Place.noConfusion)))
  | case6 c d r n ink notLine block ih =>
    rcases ih with ih | unclosed
    · exact .inl (reaches_cons (reaches_cons ih))
    · injection unclosed with unclosed
      exact .inl ⟨[], unclosed ▸ .refl _⟩
  | case7 c d r n ink notLine notBlock => exact .inl ⟨[], .refl _⟩
  | case8 n => exact .inl ⟨[], .refl _⟩
  | case9 c r n ih =>
    refine .inl (reaches_cons (ih.resolve_right ?_))
    split <;> exact Place.noConfusion
  | case10 opened n => exact .inr rfl
  | case11 opened c n => exact .inr rfl
  | case12 opened c d r n closed ih => exact .inl (reaches_cons (reaches_cons (ih.resolve_right Place.noConfusion)))
  | case13 opened c d r n inside ih => exact ih.imp_left reaches_cons

/-- Where the pass stops, another one goes no further, unless it stops at an unclosed comment that it is in. -/
private theorem skip_scan (place : Place) (cs : List Char) (n : Position) :
    skip (scan place cs n) = scan place cs n ∨ place = .block (scan place cs n) := by
  fun_induction scan place cs n with
  | case1 n => exact .inl rfl
  | case2 c n blank => exact .inl rfl
  | case3 c n ink => exact .inl (by simp [skip, scan, ink])
  | case4 c d r n blank ih => exact .inl (ih.resolve_right Place.noConfusion)
  | case5 c d r n ink line ih => exact .inl (ih.resolve_right Place.noConfusion)
  | case6 c d r n ink notLine block ih =>
    rcases ih with ih | unclosed
    · exact .inl ih
    · -- the comment is not closed, so a second pass comes back to its opening as the first did
      injection unclosed with unclosed
      rw [← unclosed]
      refine .inl ?_
      rw [skip, scan, if_neg ink, if_neg notLine, if_pos block, ← unclosed]
  | case7 c d r n ink notLine notBlock => exact .inl (by simp [skip, scan, ink, notLine, notBlock])
  | case8 n => exact .inl rfl
  | case9 c r n ih =>
    refine .inl (ih.resolve_right ?_)
    split <;> exact Place.noConfusion
  | case10 opened n => exact .inr rfl
  | case11 opened c n => exact .inr rfl
  | case12 opened c d r n closed ih => exact .inl (ih.resolve_right Place.noConfusion)
  | case13 opened c d r n inside ih => exact ih

/-- A character that trivia ends with, where the source goes on behind it. -/
private def Ends (d : Char) : Prop := isBlank d = true ∨ d = '/'

/-- The pass comes to the end of the source or behind a character that ends trivia, unless it stays between tokens or is
    in a block comment that is never closed. -/
private theorem scan_ends (place : Place) (cs : List Char) (n : Position) :
    (scan place cs n).rest = [] ∨ (∃ front d, Cursor.Reaches ⟨cs, n⟩ (front ++ [d]) (scan place cs n) ∧ Ends d) ∨
      (match place with
        | .between => scan place cs n = ⟨cs, n⟩
        | .line => False
        | .block opened => scan place cs n = opened) := by
  have first {c : Char} {r : List Char} {n : Position} {stop : Cursor} (ends : Ends c)
      (rest : stop.rest = [] ∨ (∃ front d, Cursor.Reaches ⟨r, n.next c⟩ (front ++ [d]) stop ∧ Ends d) ∨
        stop = ⟨r, n.next c⟩) :
      stop.rest = [] ∨ ∃ front d, Cursor.Reaches ⟨c :: r, n⟩ (front ++ [d]) stop ∧ Ends d := by
    refine rest.imp_right ?_
    rintro (⟨front, d, read, last⟩ | rfl)
    · exact ⟨c :: front, d, (Cursor.Reaches.one n c r).append read, last⟩
    · exact ⟨[], c, .one n c r, ends⟩
  have later {c : Char} {r : List Char} {n : Position} {stop : Cursor}
      (rest : stop.rest = [] ∨ ∃ front d, Cursor.Reaches ⟨r, n.next c⟩ (front ++ [d]) stop ∧ Ends d) :
      stop.rest = [] ∨ ∃ front d, Cursor.Reaches ⟨c :: r, n⟩ (front ++ [d]) stop ∧ Ends d := by
    refine rest.imp_right ?_
    rintro ⟨front, d, read, last⟩
    exact ⟨c :: front, d, (Cursor.Reaches.one n c r).append read, last⟩
  fun_induction scan place cs n with
  | case1 n | case2 c n blank | case8 n => exact .inl rfl
  | case3 c n ink | case7 c d r n ink notLine notBlock => exact .inr (.inr rfl)
  | case4 c d r n blank ih => exact or_assoc.1 (.inl (first (.inl blank) ih))
  | case5 c d r n ink line ih => exact or_assoc.1 (.inl (later (later (ih.imp_right (·.resolve_right id)))))
  | case6 c d r n ink notLine block ih =>
    rcases or_assoc.2 ih with ends | unclosed
    · exact or_assoc.1 (.inl (later (later ends)))
    · exact .inr (.inr unclosed)
  | case9 c r n ih =>
    cases ends : endsLine c with
    | true =>
      rw [ends] at ih
      have blank : isBlank c = true := by
        simp only [endsLine, Bool.or_eq_true, beq_iff_eq] at ends
        rcases ends with rfl | rfl <;> rfl
      exact or_assoc.1 (.inl (first (.inl blank) ih))
    | false =>
      rw [ends] at ih
      exact or_assoc.1 (.inl (later (ih.imp_right (·.resolve_right id))))
  | case10 opened n | case11 opened c n => exact .inr (.inr rfl)
  | case12 opened c d r n closed ih => exact or_assoc.1 (.inl (later (first (.inr closed.2) ih)))
  | case13 opened c d r n inside ih =>
    rcases or_assoc.2 ih with ends | unclosed
    · exact or_assoc.1 (.inl (later ends))
    · exact .inr (.inr unclosed)

/-- Trivia ends with a blank, the sign that closes a comment, or the source. -/
theorem skip_ends (c : Cursor) : skip c = c ∨ (skip c).rest = [] ∨
    ∃ front d, c.Reaches (front ++ [d]) (skip c) ∧ (isBlank d = true ∨ d = '/') := by
  rcases scan_ends .between c.rest c.place with atEnd | last | stays
  · exact .inr (.inl atEnd)
  · exact .inr (.inr last)
  · exact .inl stays

/-- Trivia is read as any other text. -/
theorem skip_reaches (c : Cursor) : ∃ text, c.Reaches text (skip c) :=
  (scan_reaches .between c.rest c.place).resolve_right Place.noConfusion

/-- Trivia is skipped in one go. -/
theorem skip_skip (c : Cursor) : skip (skip c) = skip c :=
  (skip_scan .between c.rest c.place).resolve_right Place.noConfusion

end FlowScript.Grammar.Trivia
