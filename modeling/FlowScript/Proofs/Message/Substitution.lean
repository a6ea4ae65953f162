import FlowScript.Message.Template
import Mathlib.Logic.ExistsUnique

/-!
# Filling templates

A template has one layout: literal text, a placeholder, literal text again, and so on, until the text ends, in literal text
or behind a brace that is never closed. Filling keeps the text and puts a value in each place; values are not looked into.
-/

namespace FlowScript.Template

/-- How a template is laid out. -/
inductive Layout
  /-- Literal text to the end. -/
  | literal (text : List Char) (plain : '\x7b' ∉ text)
  /-- Literal text, then a brace that is never closed and what follows it. -/
  | unclosed (text rest : List Char) (plain : '\x7b' ∉ text) (never : '\x7d' ∉ rest)
  /-- Literal text, then a name in braces, then more. -/
  | field (text name : List Char) (plain : '\x7b' ∉ text) (closed : '\x7d' ∉ name) (more : Layout)

namespace Layout

/-- The template with a layout. -/
def written : Layout → List Char
  | literal text _ => text
  | unclosed text rest _ _ => text ++ '\x7b' :: rest
  | field text name _ _ more => text ++ '\x7b' :: (name ++ '\x7d' :: more.written)

/-- What comes of a template: a placeholder gives way to the value of the first argument of its name, and stays as it is if
    there is no such argument. -/
inductive Filled (args : List (String × String)) : Layout → List Char → Prop
  | literal (text : List Char) (plain : '\x7b' ∉ text) : Filled args (.literal text plain) text
  | unclosed (text rest : List Char) (plain : '\x7b' ∉ text) (never : '\x7d' ∉ rest) :
    Filled args (.unclosed text rest plain never) (text ++ '\x7b' :: rest)
  | given (text name : List Char) (plain : '\x7b' ∉ text) (closed : '\x7d' ∉ name) (more : Layout) (out : List Char)
    (before after : List (String × String)) (value : String) :
    args = before ++ (String.ofList name, value) :: after → (∀ a ∈ before, a.1 ≠ String.ofList name) →
    Filled args more out → Filled args (.field text name plain closed more) (text ++ value.toList ++ out)
  | unknown (text name : List Char) (plain : '\x7b' ∉ text) (closed : '\x7d' ∉ name) (more : Layout) (out : List Char) :
    (∀ a ∈ args, a.1 ≠ String.ofList name) → Filled args more out →
    Filled args (.field text name plain closed more) (text ++ '\x7b' :: (name ++ '\x7d' :: out))

/-! ## One layout -/

/-- A text is split in one way at the first place of a character. -/
theorem eq_of_append_cons {c : Char} {a b a' b' : List Char} (ha : c ∉ a) (ha' : c ∉ a')
    (same : a ++ c :: b = a' ++ c :: b') : a = a' ∧ b = b' := by
  induction a generalizing a' with
  | nil =>
    cases a' with
    | nil => exact ⟨rfl, (List.cons.inj same).2⟩
    | cons d a' => exact absurd ((List.cons.inj same).1 ▸ List.mem_cons_self ..) ha'
  | cons d a ih =>
    cases a' with
    | nil => exact absurd ((List.cons.inj same).1 ▸ List.mem_cons_self ..) ha
    | cons d' a' =>
      obtain ⟨rfl, tails⟩ := List.cons.inj same
      obtain ⟨rfl, rest⟩ := ih (List.not_mem_of_not_mem_cons ha) (List.not_mem_of_not_mem_cons ha') tails
      exact ⟨rfl, rest⟩

theorem written_injective {l m : Layout} (same : l.written = m.written) : l = m := by
  -- A brace in literal text, or a closing one behind a brace that is never closed, is out of the question.
  have clash {c : Char} {text a b : List Char} (absent : c ∉ text) (split : text = a ++ c :: b) : False :=
    absent (split ▸ List.mem_append_right _ (List.mem_cons_self ..))
  induction l generalizing m with
  | literal text plain =>
    cases m with
    | literal text' => obtain rfl : text = text' := same; rfl
    | unclosed => exact (clash plain same).elim
    | field => exact (clash plain same).elim
  | unclosed text rest plain never =>
    cases m with
    | literal _ plain' => exact (clash plain' same.symm).elim
    | unclosed _ _ plain' => obtain ⟨rfl, rfl⟩ := eq_of_append_cons plain plain' same; rfl
    | field _ _ plain' => exact (clash never (eq_of_append_cons plain plain' same).2).elim
  | field text name plain closed more ih =>
    cases m with
    | literal _ plain' => exact (clash plain' same.symm).elim
    | unclosed _ _ plain' never => exact (clash never (eq_of_append_cons plain plain' same).2.symm).elim
    | field _ _ plain' closed' =>
      obtain ⟨rfl, behind⟩ := eq_of_append_cons plain plain' same
      obtain ⟨rfl, rest⟩ := eq_of_append_cons closed closed' behind
      rw [ih rest]

theorem exists_written (cs : List Char) : ∃ l : Layout, l.written = cs := by
  by_cases braced : '\x7b' ∈ cs
  · obtain ⟨text, behind, split, plain⟩ := List.eq_append_cons_of_mem braced
    by_cases closed : '\x7d' ∈ behind
    · obtain ⟨name, rest, split', first⟩ := List.eq_append_cons_of_mem closed
      have shorter : rest.length < cs.length := by
        rw [split, split', List.length_append, List.length_cons, List.length_append, List.length_cons]
        omega
      obtain ⟨more, read⟩ := exists_written rest
      exact ⟨.field text name plain first more, by rw [written, read, split, split']⟩
    · exact ⟨.unclosed text behind plain closed, split.symm⟩
  · exact ⟨.literal cs braced, rfl⟩
termination_by cs.length

end Layout

/-! ## Filling a layout -/

theorem pieces_append {text : List Char} (plain : '\x7b' ∉ text) (rest : List Char) :
    pieces (text ++ rest) = text.map Piece.char ++ pieces rest := by
  induction text with
  | nil => rfl
  | cons c text ih =>
    rw [List.cons_append, pieces, if_neg (List.ne_of_not_mem_cons plain).symm, ih (List.not_mem_of_not_mem_cons plain),
      List.map_cons, List.cons_append]

theorem pieces_literal {text : List Char} (plain : '\x7b' ∉ text) : pieces text = text.map Piece.char := by
  have whole := pieces_append plain []
  rwa [List.append_nil, pieces, List.append_nil] at whole

theorem piecesAfterBrace_closed (read : List Char) {name : List Char} (closed : '\x7d' ∉ name) (rest : List Char) :
    piecesAfterBrace read (name ++ '\x7d' :: rest) = .placeholder (read ++ name) :: pieces rest := by
  induction name generalizing read with
  | nil => rw [List.nil_append, piecesAfterBrace, if_pos rfl, List.append_nil]
  | cons c name ih =>
    rw [List.cons_append, piecesAfterBrace, if_neg (List.ne_of_not_mem_cons closed).symm,
      ih _ (List.not_mem_of_not_mem_cons closed), List.append_assoc, List.singleton_append]

theorem piecesAfterBrace_unclosed (read : List Char) {rest : List Char} (never : '\x7d' ∉ rest) :
    piecesAfterBrace read rest = [.unclosed (read ++ rest)] := by
  induction rest generalizing read with
  | nil => rw [piecesAfterBrace, List.append_nil]
  | cons c rest ih =>
    rw [piecesAfterBrace, if_neg (List.ne_of_not_mem_cons never).symm, ih _ (List.not_mem_of_not_mem_cons never),
      List.append_assoc, List.singleton_append]

theorem flatMap_fill_char (args : List (String × String)) (text : List Char) :
    (text.map Piece.char).flatMap (·.fill args) = text := by
  induction text with
  | nil => rfl
  | cons c text ih => rw [List.map_cons, List.flatMap_cons, ih]; rfl

section
variable {args : List (String × String)} {name : List Char}

theorem Piece.fill_of_given {before after : List (String × String)} {value : String}
    (split : args = before ++ (String.ofList name, value) :: after) (first : ∀ a ∈ before, a.1 ≠ String.ofList name) :
    (placeholder name).fill args = value.toList := by
  have found : args.lookup (String.ofList name) = some value :=
    List.lookup_eq_some_iff.2 ⟨before, after, split, fun a mem => bne_iff_ne.2 (first a mem).symm⟩
  rw [fill, found]

theorem Piece.fill_of_unknown (unknown : ∀ a ∈ args, a.1 ≠ String.ofList name) :
    (placeholder name).fill args = '\x7b' :: (name ++ ['\x7d']) := by
  have missing : args.lookup (String.ofList name) = none :=
    List.lookup_eq_none_iff.2 fun a mem => bne_iff_ne.2 (unknown a mem).symm
  rw [fill, missing]
  rfl

/-- A name has a first argument or none. -/
theorem exists_first_or_unknown (args : List (String × String)) (name : List Char) :
    (∃ before after value, args = before ++ (String.ofList name, value) :: after ∧
      ∀ a ∈ before, a.1 ≠ String.ofList name) ∨ ∀ a ∈ args, a.1 ≠ String.ofList name := by
  cases found : args.lookup (String.ofList name) with
  | none => exact .inr fun a mem => (bne_iff_ne.1 (List.lookup_eq_none_iff.1 found a mem)).symm
  | some value =>
    obtain ⟨before, after, split, first⟩ := List.lookup_eq_some_iff.1 found
    exact .inl ⟨before, after, value, split, fun a mem => (bne_iff_ne.1 (first a mem)).symm⟩

end

namespace Layout

/-- The pieces of a template with a layout, filled. -/
def outcome (args : List (String × String)) (l : Layout) : List Char := (pieces l.written).flatMap (·.fill args)

variable {args : List (String × String)} {l : Layout} {out : List Char}

theorem outcome_literal (text : List Char) (plain : '\x7b' ∉ text) : (literal text plain).outcome args = text := by
  rw [outcome, written, pieces_literal plain, flatMap_fill_char]

theorem outcome_unclosed (text rest : List Char) (plain : '\x7b' ∉ text) (never : '\x7d' ∉ rest) :
    (unclosed text rest plain never).outcome args = text ++ '\x7b' :: rest := by
  rw [outcome, written, pieces_append plain, pieces, if_pos rfl, piecesAfterBrace_unclosed _ never, List.flatMap_append,
    flatMap_fill_char, List.nil_append, List.flatMap_singleton]
  rfl

theorem outcome_field (text name : List Char) (plain : '\x7b' ∉ text) (closed : '\x7d' ∉ name) (more : Layout) :
    (field text name plain closed more).outcome args =
      text ++ (Piece.placeholder name).fill args ++ more.outcome args := by
  rw [outcome, written, pieces_append plain, pieces, if_pos rfl, piecesAfterBrace_closed _ closed, List.flatMap_append,
    flatMap_fill_char, List.nil_append, List.flatMap_cons, List.append_assoc, outcome]

theorem Filled.eq_outcome (filled : Filled args l out) : out = l.outcome args := by
  induction filled with
  | literal text plain => exact (outcome_literal text plain).symm
  | unclosed text rest plain never => exact (outcome_unclosed text rest plain never).symm
  | given text name plain closed more out before after value split first _ ih =>
    rw [outcome_field, Piece.fill_of_given split first, ih]
  | unknown text name plain closed more out unknown _ ih =>
    rw [outcome_field, Piece.fill_of_unknown unknown, ih, List.append_assoc, List.cons_append, List.append_assoc,
      List.singleton_append]

theorem filled_outcome (args : List (String × String)) (l : Layout) : Filled args l (l.outcome args) := by
  induction l with
  | literal text plain =>
    rw [outcome_literal]
    exact .literal text plain
  | unclosed text rest plain never =>
    rw [outcome_unclosed]
    exact .unclosed text rest plain never
  | field text name plain closed more ih =>
    rw [outcome_field]
    obtain ⟨before, after, value, split, first⟩ | unknown := exists_first_or_unknown args name
    · rw [Piece.fill_of_given split first]
      exact .given text name plain closed more _ before after value split first ih
    · rw [Piece.fill_of_unknown unknown, List.append_assoc, List.cons_append, List.append_assoc, List.singleton_append]
      exact .unknown text name plain closed more _ unknown ih

theorem filled_iff : Filled args l out ↔ out = l.outcome args :=
  ⟨Filled.eq_outcome, fun same => same ▸ filled_outcome args l⟩

end Layout

/-- Every template has exactly one layout. Filling it with any arguments gives what comes of that layout, in one pass: the
    text as it is, for each placeholder the value of the first argument of its name, whatever braces the value has, or the
    placeholder itself. Without arguments nothing changes. -/
theorem fill_substitutes_once :
    (∀ template : String, ∃! layout : Layout, String.ofList layout.written = template) ∧
    (∀ (layout : Layout) (args : List (String × String)) (out : List Char),
      layout.Filled args out ↔ fill (String.ofList layout.written) args = String.ofList out) ∧
    ∀ template : String, fill template [] = template := by
  refine ⟨?_, ?_, ?_⟩
  · intro template
    obtain ⟨layout, written⟩ := Layout.exists_written template.toList
    refine ⟨layout, by dsimp only; rw [written, String.ofList_toList], fun other same => ?_⟩
    apply Layout.written_injective
    rw [written, ← same, String.toList_ofList]
  · intro layout args out
    rw [Layout.filled_iff, fill, String.toList_ofList, String.ofList_inj, eq_comm]
    rfl
  · intro template
    rw [fill]
    simp only [Piece.fill_nil]
    rw [show (fun p : Piece => p.written) = Piece.written from rfl, flatMap_written_pieces, String.ofList_toList]

/-- A value that looks like a placeholder is not filled in its turn. -/
example : fill "\x7ba\x7d\x7bb\x7d\x7b" [("a", "\x7bb\x7d"), ("b", "2"), ("b", "3")] = "\x7bb\x7d2\x7b" := by
  decide +kernel

end FlowScript.Template
