import FlowScript.Text.OneLine
import FlowScript.Text.Search
import Mathlib.Data.List.Infix

/-!
# Searching in text that is put together of parts

What has no separator in it occurs in parts with separators between them exactly when it occurs in one of the parts. So
what has no blank in it is found in a text exactly when it is found in the text's words.
-/

namespace FlowScript.Text

variable {separator : Char} {pattern l r : List Char}

/-- What has no separator in it does not go beyond one. -/
theorem prefix_append_cons_iff (apart : separator ∉ pattern) : pattern <+: l ++ separator :: r ↔ pattern <+: l := by
  refine ⟨fun found => ?_, fun found => found.trans (List.prefix_append _ _)⟩
  rcases List.prefix_or_prefix_of_prefix found (List.prefix_append l (separator :: r)) with within | ⟨beyond, rfl⟩
  · exact within
  · rw [List.prefix_append_right_inj] at found
    cases beyond with
    | nil => rw [List.append_nil]
    | cons c cs =>
      obtain ⟨rfl, -⟩ := List.cons_prefix_cons.1 found
      simp at apart

theorem infix_append_cons_iff (apart : separator ∉ pattern) :
    pattern <:+: l ++ separator :: r ↔ pattern <:+: l ∨ pattern <:+: r := by
  induction l with
  | nil =>
    have front : pattern <+: separator :: r ↔ pattern <+: [] := prefix_append_cons_iff (l := []) apart
    rw [List.nil_append, List.infix_cons_iff, front, List.prefix_nil, List.infix_nil]
  | cons c l ih =>
    rw [List.cons_append, List.infix_cons_iff, ih, ← List.cons_append, prefix_append_cons_iff apart, List.infix_cons_iff,
      or_assoc]

/-- What has no separator in it, and some other character, occurs in one part alone. -/
theorem infix_intercalate_iff (some_ : pattern ≠ []) (apart : separator ∉ pattern) (parts : List (List Char)) :
    pattern <:+: [separator].intercalate parts ↔ ∃ part ∈ parts, pattern <:+: part := by
  induction parts with
  | nil => simp [List.intercalate, some_]
  | cons part parts ih =>
    cases parts with
    | nil => simp
    | cons next others =>
      rw [List.intercalate_cons_cons, List.append_assoc, List.singleton_append, infix_append_cons_iff apart, ih]
      exact (List.exists_mem_cons_iff ..).symm

theorem flatMap_intercalate {f : Char → List Char} (keeps : f separator = [separator]) (parts : List (List Char)) :
    ([separator].intercalate parts).flatMap f = [separator].intercalate (parts.map (·.flatMap f)) := by
  induction parts with
  | nil => rfl
  | cons part parts ih =>
    cases parts with
    | nil => simp
    | cons next others =>
      rw [List.intercalate_cons_cons, List.flatMap_append, List.flatMap_append, ih, List.flatMap_singleton, keeps]
      exact (List.intercalate_cons_cons ..).symm

end FlowScript.Text
