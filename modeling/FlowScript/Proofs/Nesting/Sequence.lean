import FlowScript.Proofs.Nesting.Refusal
import Mathlib.Data.List.Chain

/-!
# One statement after the other

The nesting without brackets ends with its statement only where the next word ends it. So texts of whole statements, one
under the other, nest no deeper than each of them if every text begins with a word that continues no statement, or
follows one that leaves no such nesting open. A text that begins with a quote, a bracket or a word such as `while` takes
on what the text above leaves, and texts of this kind add up.
-/

namespace FlowScript.Nesting

/-- The kinds of the tokens of a text. -/
def kinds (cs : List Char) : List TokenKind := (tokens cs).map Token.kind

/-- Whether the first token that is no line break is a word that continues no statement. -/
def TokenKind.beginAfresh : List TokenKind → Bool
  | .lineBreak :: kinds => beginAfresh kinds
  | .word chars :: _ => !continuationWords.contains chars
  | _ => false

/-- Places that a line feed takes back to code. -/
def Token.Place.endsAtLine : Token.Place → Bool
  | .code | .word | .lineComment => true
  | _ => false

/-- A text whose quotes, block comments and brackets are closed and whose last token, line breaks aside, is a `;` or a
    closing `\x7d`. -/
structure Complete (cs : List Char) : Prop where
  outside : (Token.placeAfter .code cs).endsAtLine = true
  closed : openBrackets (tokens cs) = 0
  ends : (State.start.after (tokens cs)).boundary = .statement

instance (cs : List Char) : Decidable (Complete cs) :=
  decidable_of_iff ((Token.placeAfter .code cs).endsAtLine = true ∧ openBrackets (tokens cs) = 0 ∧
    (State.start.after (tokens cs)).boundary = .statement)
    ⟨fun ⟨outside, closed, ends⟩ => ⟨outside, closed, ends⟩, fun h => ⟨h.outside, h.closed, h.ends⟩⟩

/-- The nesting without brackets that a text leaves open. -/
def leftOpen (cs : List Char) : Nat := (State.start.after (tokens cs)).chain

/-- A text that takes nothing on from a text above it. -/
def Follows (above cs : List Char) : Prop := leftOpen above = 0 ∨ TokenKind.beginAfresh (kinds cs) = true

instance (above cs : List Char) : Decidable (Follows above cs) := inferInstanceAs (Decidable (_ ∨ _))

namespace State

theorem after_tokens (s : State) (cs : List Char) : s.after (tokens cs) = s.afterKinds (kinds cs) := rfl

theorem tooDeep?_eq_none_iff {cs : List Char} : tooDeep? cs = none ↔ start.Within (kinds cs) :=
  tooDeepFrom_eq_none_iff

/-! ## After a statement -/

/-- A line break leaves the boundary of a statement what it is. -/
theorem step_lineBreak {s : State} (ended : s.boundary = .statement) : s.step .lineBreak = s := by
  rw [step, ended]
  exact congrArg (State.mk s.levels s.chain) ended.symm

theorem step_lineBreak_ne {s : State} (other : s.boundary ≠ .statement) :
    (s.step .lineBreak).boundary ≠ .statement := by
  cases boundary : s.boundary with
  | none | line => simp [step, boundary]
  | statement => exact absurd boundary other

/-- No bracket is open, and what is left open without one ends with the next word or is nothing. -/
def Resumes (s : State) (ks : List TokenKind) : Prop :=
  s.levels = [] ∧ (s.chain = 0 ∨ s.boundary = .statement ∧ TokenKind.beginAfresh ks = true)

theorem Resumes.lineBreak {s : State} {ks : List TokenKind} (h : s.Resumes (.lineBreak :: ks)) :
    (s.step .lineBreak).Resumes ks := by
  refine ⟨h.1, h.2.imp id fun ⟨ended, afresh⟩ => ?_⟩
  rw [step_lineBreak ended]
  exact ⟨ended, afresh⟩

/-- The next token that is no line break leads where it leads from a point at which nothing is open. -/
theorem Resumes.step_eq {s r : State} {k : TokenKind} {ks : List TokenKind} (h : s.Resumes (k :: ks))
    (nothing : r.levels = [] ∧ r.chain = 0) (visible : k ≠ .lineBreak) : s.step k = r.step k := by
  obtain ⟨levels, ended⟩ := h
  cases k with
  | lineBreak => exact absurd rfl visible
  | word chars =>
    have chain : (if endsBefore s.boundary chars then 0 else s.chain) = 0 := by
      rcases ended with none_ | ⟨ended, afresh⟩
      · rw [none_, ite_self]
      · have ends : endsBefore s.boundary chars = true := by
          rw [ended]
          exact afresh
        rw [if_pos ends]
    simp only [step, chain, levels, nothing, ite_self]
  | _ =>
    have none_ : s.chain = 0 := ended.resolve_right fun ended => Bool.false_ne_true ended.2
    simp [step, none_, levels, nothing]

/-- From such a point, a text stays within the limit if it does on its own, and leaves open what it leaves on its own. -/
theorem Resumes.within_iff {s r : State} {ks : List TokenKind} (h : s.Resumes ks) (low : s.weight ≤ limit)
    (nothing : r.levels = [] ∧ r.chain = 0) :
    (s.Within ks ↔ r.Within ks) ∧
      (r.boundary ≠ .statement → (r.afterKinds ks).boundary = .statement → s.afterKinds ks = r.afterKinds ks) := by
  induction ks generalizing s r with
  | nil => exact ⟨Iff.rfl, fun other same => absurd same other⟩
  | cons k ks ih =>
    by_cases feed : k = .lineBreak
    · subst feed
      have none_ : (r.step .lineBreak).weight ≤ limit := by
        rw [step, weight, nothing.1, nothing.2]
        exact Nat.zero_le _
      obtain ⟨within, after⟩ := ih h.lineBreak low (r := r.step .lineBreak) nothing
      exact ⟨and_congr (iff_of_true low none_) within, fun other => after (step_lineBreak_ne other)⟩
    · have same := h.step_eq nothing feed
      exact ⟨by rw [Within, Within, same], fun _ _ => by rw [afterKinds, List.foldl_cons, same]; rfl⟩

end State

/-! ## Texts under one another -/

theorem kinds_append_line {cs : List Char} (outside : (Token.placeAfter .code cs).endsAtLine = true)
    (rest : List Char) : kinds (cs ++ '\n' :: rest) = kinds cs ++ .lineBreak :: kinds rest := by
  have line (n : Nat) : Token.scan (Token.placeAfter .code cs) ('\n' :: rest) n =
      ⟨.lineBreak, n, n + 1⟩ :: Token.scan .code rest (n + 1) := by
    cases place : Token.placeAfter .code cs with
    | code | word | lineComment => rfl
    | blockComment | quote | passing => rw [place] at outside; cases outside
  rw [kinds, tokens, Token.scan_append_line, line, List.map_append, List.map_cons, Token.kinds_scan .code rest _ 0]
  rfl

open State in
/-- What a whole text leaves open on its own is no bracket, and ends where the next word ends it. -/
theorem Complete.resumes {above cs : List Char} (complete : Complete above) (follows : Follows above cs) :
    (start.afterKinds (kinds above)).Resumes (kinds cs) := by
  have levels := complete.closed
  rw [openBrackets_eq, List.length_eq_zero_iff] at levels
  rw [← after_tokens]
  exact ⟨levels, follows.imp id fun afresh => ⟨complete.ends, afresh⟩⟩

open State in
/-- Texts under one another stay within the limit exactly when each does on its own. -/
theorem within_intercalate {s : State} {cs : List Char} {texts : List (List Char)}
    (complete : ∀ t ∈ cs :: texts, Complete t) (follow : (cs :: texts).IsChain Follows)
    (resumes : s.Resumes (kinds cs)) (low : s.weight ≤ limit) :
    s.Within (kinds (['\n'].intercalate (cs :: texts))) ↔ ∀ t ∈ cs :: texts, start.Within (kinds t) := by
  induction texts generalizing s cs with
  | nil =>
    rw [List.intercalate_singleton, List.forall_mem_singleton]
    exact (resumes.within_iff low ⟨rfl, rfl⟩).1
  | cons next texts ih =>
    obtain ⟨whole, others⟩ := List.forall_mem_cons.1 complete
    obtain ⟨follows, rest⟩ := List.isChain_cons_cons.1 follow
    obtain ⟨own, after⟩ := resumes.within_iff low (r := start) ⟨rfl, rfl⟩
    have ended : (start.afterKinds (kinds cs)).boundary = .statement := by
      rw [← after_tokens]
      exact whole.ends
    have same := after (by decide) ended
    rw [List.intercalate_cons_cons, List.append_assoc, List.singleton_append, kinds_append_line whole.outside,
      within_append, same, Within, step_lineBreak ended, List.forall_mem_cons, own]
    refine and_congr_right fun within => ?_
    have stays : (start.afterKinds (kinds cs)).weight ≤ limit := within.weight_le (Nat.zero_le _)
    rw [and_iff_right stays]
    exact ih others rest (whole.resumes follows) stays

/-- Sources of whole statements, each of which begins with a word that continues no statement or follows one that leaves
    nothing open, nest too deep under one another exactly when one of them does on its own, however many there are. -/
theorem sequence_tooDeep_iff (texts : List String) (complete : ∀ t ∈ texts, Complete t.toList)
    (follow : (texts.map String.toList).IsChain Follows) :
    (∃ span, parseModule ("\n".intercalate texts) = .error (.tooDeep span)) ↔
      ∃ t ∈ texts, ∃ span, parseModule t = .error (.tooDeep span) := by
  simp only [exists_tooDeep_iff, String.toList_intercalate]
  cases texts with
  | nil => simp; decide
  | cons t texts =>
    have resumes : State.start.Resumes (kinds t.toList) := ⟨rfl, .inl rfl⟩
    have all := within_intercalate (by simpa using complete) follow resumes (Nat.zero_le _)
    simp only [← State.tooDeep?_eq_none_iff] at all
    rw [← not_iff_not]
    simpa using all

/-- Neither a quote nor a bracket takes anything on below a statement that leaves nothing open. -/
theorem sequence_tooDeep_iff_quoteAndBracket :
    let texts := ["'use strict';", "[a, b] = c;", "if (a) b();", "let v = a ? b : c;"]
    (∀ t ∈ texts, Complete t.toList) ∧ (texts.map String.toList).IsChain Follows ∧
      ¬ ∃ span, parseModule ("\n".intercalate texts) = .error (.tooDeep span) := by
  intro texts
  have complete : ∀ t ∈ texts, Complete t.toList := by decide +kernel
  have follow : (texts.map String.toList).IsChain Follows := by decide +kernel
  refine ⟨complete, follow, ?_⟩
  rw [sequence_tooDeep_iff texts complete follow]
  simp only [exists_tooDeep_iff]
  decide +kernel

/-- Statements that begin with no word, or with a word that may also continue a statement, add up: each of them is read
    on its own and ends with its `;`, and more of them under one another than the limit are refused. -/
theorem sequence_tooDeep_withoutWord :
    (parseModule "(a) ? b : c;").toOption.map (·.items.length) = some 1 ∧
      (parseModule "while (a) b();").toOption.map (·.items.length) = some 1 ∧
      (∃ span, parseModule ("\n".intercalate (List.replicate 129 "(a) ? b : c;")) = .error (.tooDeep span)) ∧
      (∃ span, parseModule ("\n".intercalate (List.replicate 129 "while (a) b();")) = .error (.tooDeep span)) := by
  refine ⟨by decide +kernel, by decide +kernel, ?_, ?_⟩
  all_goals
    rw [exists_tooDeep_iff, String.toList_intercalate, List.map_replicate]
    decide +kernel

end FlowScript.Nesting
