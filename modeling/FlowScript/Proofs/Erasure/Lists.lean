import FlowScript.Proofs.Erasure.Removal
import Mathlib.Algebra.Ring.Nat

/-!
# The course of a list in braces

Between the names of a list stands a comma each, and the braces stand around them. So a list that is written anew with
fewer names has less ink than before.
-/

namespace FlowScript.Parse
open FlowScript.Grammar (Rule ruleKind)
open FlowScript.Peg (Cursor Derivation Matches)
open Text (ink)

/-- Trees one after the other up to the end of the last, with so much ink at least in the gaps before them. -/
inductive Listed : Cursor → List (Derivation Rule) → Nat → Cursor → Prop
  | nil {c} : Listed c [] 0 c
  | cons {c gap t text ts m n d} (before : c.Reaches gap t.start) (marks : m ≤ ink gap)
    (inside : t.start.Reaches text t.stop) (after : Listed t.stop ts n d) : Listed c (t :: ts) (m + n) d

namespace Listed

variable {c c' d : Cursor} {t : Derivation Rule} {ts us : List (Derivation Rule)} {m n : Nat}

/-- The text of the trees and the gaps has the ink of both. -/
theorem exists_text (h : Listed c ts n d) :
    ∃ text, c.Reaches text d ∧ (ts.map fun t => ink (Site.ofTree t).text).sum + n ≤ ink text := by
  induction h with
  | nil => exact ⟨[], .refl _, le_refl _⟩
  | @cons c gap t text ts m n d before marks inside after ih =>
    obtain ⟨rest, read, le⟩ := ih
    have own : (Site.ofTree t).text = text := Site.text_of_reaches inside
    refine ⟨gap ++ text ++ rest, (before.append inside).append read, ?_⟩
    rw [List.map_cons, List.sum_cons, own, Text.ink_append, Text.ink_append]
    omega

protected theorem append (h : Listed c ts m c') (h' : Listed c' us n d) : Listed c (ts ++ us) (m + n) d := by
  induction h with
  | nil => rwa [Nat.zero_add]
  | cons before marks inside _ ih =>
    rw [Nat.add_assoc]
    exact .cons before marks inside (ih h')

/-- More text in front adds its ink to the first gap. -/
theorem prepend {gap : List Char} (first : c.Reaches gap c') (marks : m ≤ ink gap) (h : Listed c' (t :: ts) n d) :
    Listed c (t :: ts) (m + n) d := by
  cases h with
  | cons before marks' inside after =>
    rw [← Nat.add_assoc]
    refine .cons (first.append before) ?_ inside after
    rw [Text.ink_append]
    omega

theorem stop_getLast (h : Listed c ts n d) {last : Derivation Rule} (is : ts.getLast? = some last) : last.stop = d := by
  induction h with
  | nil => cases is
  | @cons c gap t text ts m n d before marks inside after ih =>
    cases after with
    | nil => cases is; rfl
    | cons => exact ih (by rwa [List.getLast?_cons_cons] at is)

end Listed

section Lists

variable {s : Rule} {c c' : Cursor} {ts : List (Derivation Rule)}

/-- A name of a list. -/
theorem item_listed (plain : ruleKind s = .plain) (h : Matches grammar (.call s) .loose c (some (ts, c'))) :
    Listed c ts 0 c' ∧ ∃ t, ts = [t] ∧ t.rule = s := by
  cases h with
  | call visible body =>
    obtain ⟨text, read⟩ := (body.chain grammar_wellFormed).reaches
    exact ⟨.cons (t := .node _ _ _ _) (.refl c) (Nat.zero_le _) read .nil, _, rfl, rfl⟩
  | callInToken hidden body =>
    rw [show grammar.kind s = .plain from plain] at hidden
    cases hidden

/-- A comma and a name. -/
theorem round_listed (plain : ruleKind s = .plain) (h : Matches grammar (.seq "," (.call s)) .loose c (some (ts, c'))) :
    Listed c ts 1 c' ∧ ∃ t, ts = [t] ∧ t.rule = s := by
  cases h with
  | @seq _ _ _ _ _ c₁ _ _ first second =>
    cases first with
    | text comes =>
      have comma := Cursor.Reaches.of_after? comes
      obtain ⟨gap, skipped⟩ := grammar_wellFormed.skips c₁
      obtain ⟨listed, t, rfl, is⟩ := item_listed plain second
      refine ⟨listed.prepend (comma.append skipped) ?_, t, rfl, is⟩
      rw [Text.ink_append]
      exact Nat.le_add_right_of_le (by decide)

/-- Any number of commas, each with a name. -/
theorem rounds_listed (plain : ruleKind s = .plain) {e : Grammar.Body}
    (rounds : e = .star (.seq "," (.call s)) ∨ e = .more (.seq "," (.call s)))
    (h : Matches grammar e .loose c (some (ts, c'))) : Listed c ts ts.length c' ∧ ∀ t ∈ ts, t.rule = s := by
  generalize loose : Peg.Texture.loose = x at h
  induction h using Matches.success with
  | @star a x c ts c₁ us c' first more ih₁ ih₂ =>
    obtain ⟨rfl⟩ : a = .seq "," (.call s) := by simpa using rounds
    subst loose
    obtain ⟨listed, t, rfl, is⟩ := round_listed plain first
    obtain ⟨others, rest⟩ := ih₂ (.inr rfl) rfl
    refine ⟨?_, List.forall_mem_cons.2 ⟨is, rest⟩⟩
    rw [List.length_append]
    exact listed.append others
  | @more a x c ts c₁ us c' first more ih₁ ih₂ =>
    obtain ⟨rfl⟩ : a = .seq "," (.call s) := by simpa using rounds
    subst loose
    obtain ⟨gap, skipped⟩ := grammar_wellFormed.skips c
    obtain ⟨listed, t, rfl, is⟩ := round_listed plain first
    obtain ⟨others, rest⟩ := ih₂ (.inr rfl) rfl
    refine ⟨?_, List.forall_mem_cons.2 ⟨is, rest⟩⟩
    rw [List.length_append]
    refine Listed.append ?_ others
    have := listed.prepend skipped (Nat.zero_le _)
    rwa [Nat.zero_add] at this
  | starNone | moreNone => exact ⟨.nil, List.forall_mem_nil _⟩
  | _ => simp at rounds

/-- Names with commas between them, and what trails the last. -/
theorem commaSeparated_listed (plain : ruleKind s = .plain)
    (h : Matches grammar (Grammar.commaSeparated (.call s)) .loose c (some (ts, c'))) :
    ∃ t us d gap, ts = t :: us ∧ Listed c ts us.length d ∧ d.Reaches gap c' ∧ ∀ t ∈ ts, t.rule = s := by
  cases h with
  | @seq _ _ _ _ _ c₁ us _ first second =>
    obtain ⟨gap, skipped⟩ := grammar_wellFormed.skips c₁
    obtain ⟨listed, t, rfl, is⟩ := item_listed plain first
    obtain ⟨others, rest⟩ := rounds_listed plain (.inl rfl) second
    have rules : ∀ t' ∈ [t] ++ us, t'.rule = s := List.forall_mem_cons.2 ⟨is, rest⟩
    cases us with
    | nil =>
      cases others with
      | nil => exact ⟨t, [], c₁, gap, rfl, listed, skipped, rules⟩
    | cons u us =>
      have joined := listed.append (others.prepend skipped (Nat.zero_le _))
      rw [Nat.zero_add, Nat.zero_add] at joined
      exact ⟨t, u :: us, c', [], rfl, joined, .refl _, rules⟩

/-- A list in braces: before the end of its last name stand a brace and the commas, after it the other brace. -/
theorem braced_listed (plain : ruleKind s = .plain)
    (h : Matches grammar (Grammar.braced (.call s)) .loose c (some (ts, c'))) :
    (∀ t ∈ ts, t.rule = s) ∧
      (ts = [] ∨ ∃ d gap, Listed c ts ts.length d ∧ d.Reaches (gap ++ ['\x7d']) c') := by
  cases h with
  | @seq _ _ _ _ _ c₁ us _ opening rest =>
    cases opening with
    | text comes =>
    have brace := Cursor.Reaches.of_after? comes
    obtain ⟨gap, skipped⟩ := grammar_wellFormed.skips c₁
    cases rest with
    | @seq _ _ _ _ _ c₂ _ _ names closing =>
      obtain ⟨gap₂, skipped₂⟩ := grammar_wellFormed.skips c₂
      cases closing with
      | text comes₂ =>
      have brace₂ := Cursor.Reaches.of_after? comes₂
      cases names with
      | optNone none => exact ⟨List.forall_mem_nil _, .inl rfl⟩
      | opt names =>
        cases names with
        | @seq _ _ _ _ _ c₃ _ _ separated trailing =>
          obtain ⟨t, ts, d, gap₃, rfl, listed, trail, rules⟩ := commaSeparated_listed plain separated
          obtain ⟨gap₄, skipped₄⟩ := grammar_wellFormed.skips c₃
          obtain ⟨comma, read⟩ := (trailing.chain grammar_wellFormed).reaches
          cases trailing.trees_eq_nil rfl
          simp only [List.append_nil, List.nil_append]
          refine ⟨rules, .inr ⟨d, _, ?_, (((trail.append skipped₄).append read).append skipped₂).append brace₂⟩⟩
          rw [List.length_cons, Nat.add_comm]
          refine listed.prepend (brace.append skipped) ?_
          rw [Text.ink_append]
          exact Nat.le_add_right_of_le (by decide)

end Lists

/-! ## Writing a list anew -/

theorem ink_intercalate {names : List (List Char)} (some_ : names ≠ []) :
    ink ([',', ' '].intercalate names) + 1 = (names.map ink).sum + names.length := by
  induction names with
  | nil => exact absurd rfl some_
  | cons name names ih =>
    cases names with
    | nil => simp
    | cons next names =>
      have rest := ih (List.cons_ne_nil _ _)
      have comma : ink [',', ' '] = 1 := by decide
      rw [List.intercalate_cons_cons, Text.ink_append, Text.ink_append, comma, List.map_cons, List.sum_cons,
        List.length_cons]
      omega

theorem ink_braceList {names : List (List Char)} (some_ : names ≠ []) :
    ink (braceList names).toList = (names.map ink).sum + names.length + 1 := by
  have inner := ink_intercalate some_
  have opening : ink "\x7b ".toList = 1 := by decide
  have closing : ink " \x7d".toList = 1 := by decide
  have text : (braceList names).toList = "\x7b ".toList ++ [',', ' '].intercalate names ++ " \x7d".toList := by
    simp only [braceList, String.toList_append, String.toList_ofList]
  rw [text, Text.ink_append, Text.ink_append, opening, closing]
  omega

/-- The names that are kept have no more ink than all names as they are matched. -/
theorem ink_kept_le (parts : List Part) :
    ((parts.filter isKept).map fun p => ink p.content).sum ≤ (parts.map fun p => ink p.text).sum := by
  induction parts with
  | nil => exact le_refl _
  | cons p ps ih =>
    have own : ink p.content ≤ ink p.text := Text.ink_le_of_prefix (Source.dropTrivia_isPrefix _)
    rw [List.filter_cons, List.map_cons, List.sum_cons]
    split
    · rw [List.map_cons, List.sum_cons]
      omega
    · omega

/-- A shorter list of names has less ink than the list as it is matched, from its opening to the end of the last name
    and the brace after it. -/
theorem ink_braceList_lt {parts : List Part} {trees : List (Derivation Rule)} (all : List.Forall₂ Becomes trees parts)
    (some_ : parts.filter isKept ≠ []) (fewer : (parts.filter isKept).length < parts.length) {c d : Cursor}
    (listed : Listed c trees trees.length d) :
    ∃ text, c.Reaches text d ∧ ink (braceList ((parts.filter isKept).map (·.content))).toList < ink text + 1 := by
  obtain ⟨text, read, le⟩ := listed.exists_text
  refine ⟨text, read, ?_⟩
  have same : (trees.map fun t => ink (Site.ofTree t).text) = parts.map fun p => ink p.text := by
    have sites := congrArg (List.map fun s : Site => ink s.text) (sites_of_becomes all)
    rw [List.map_map, List.map_map] at sites
    exact sites.symm
  have kept := ink_kept_le parts
  have length := all.length_eq
  rw [ink_braceList (by simpa using some_), List.map_map, List.length_map]
  rw [same] at le
  change ((parts.filter isKept).map fun p => ink p.content).sum + _ + 1 < _
  omega

end FlowScript.Parse
