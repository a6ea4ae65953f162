import FlowScript.Proofs.Peg.Course
import Mathlib.Computability.Language

/-!
# What a match is made of

An expression read as a regular one, order of choices and lookahead left aside, is a language twice: of the rules it
calls (`words`), and, where it calls none, of the characters it takes (`spellings`). The rules of the trees in a match
are one of the words, and the text of a token is one of the spellings.
-/

namespace FlowScript.Peg
open scoped Computability

variable {ρ : Type} {g : Grammar ρ}

/-- The sequences of rules that an expression may call, one after the other. -/
def words : Peg ρ → Language ρ
  | .text _ | .char _ | .inputEnd | .ahead _ | .notAhead _ => 1
  | .call r => {[r]}
  | .seq a b => a.words * b.words
  | .alt a b => a.words + b.words
  | .opt a => 1 + a.words
  | .star a | .more a => a.words∗

/-- The texts that an expression without calls may take where no trivia is skipped. -/
def spellings : Peg ρ → Language Char
  | .text chars => {chars}
  | .char test => {text | ∃ d, test d = true ∧ text = [d]}
  | .inputEnd | .ahead _ | .notAhead _ => 1
  | .call _ => 0
  | .seq a b => a.spellings * b.spellings
  | .alt a b => a.spellings + b.spellings
  | .opt a => 1 + a.spellings
  | .star a | .more a => a.spellings∗

/-- Whether every match of an expression calls a rule of a certain kind. -/
def needs (P : ρ → Bool) : Peg ρ → Bool
  | .text _ | .char _ | .inputEnd | .opt _ | .star _ | .more _ | .ahead _ | .notAhead _ => false
  | .call r => P r
  | .seq a b => a.needs P || b.needs P
  | .alt a b => a.needs P && b.needs P

/-- Whether an expression is a choice between calls. -/
def single : Peg ρ → Bool
  | .call _ => true
  | .alt a b => a.single && b.single
  | _ => false

@[simp] theorem mem_singleton {α : Type} (w u : List α) : w ∈ ({u} : Language α) ↔ w = u := Iff.rfl

theorem append_mem_kstar {α : Type} {l : Language α} {u v : List α} (hu : u ∈ l) (hv : v ∈ l∗) : u ++ v ∈ l∗ := by
  obtain ⟨rounds, rfl, each⟩ := Language.mem_kstar.1 hv
  refine Language.mem_kstar.2 ⟨u :: rounds, rfl, ?_⟩
  simpa [hu] using each

theorem mem_calls_of_mem_words {e : Peg ρ} {w : List ρ} (h : w ∈ e.words) {r : ρ} (mem : r ∈ w) : r ∈ e.calls := by
  induction e generalizing w with
  | text | char | inputEnd | ahead | notAhead =>
    rw [words, Language.mem_one] at h
    simp [h] at mem
  | call s =>
    rw [words, mem_singleton] at h
    simpa [h, calls] using mem
  | seq a b ih₁ ih₂ =>
    obtain ⟨u, hu, v, hv, rfl⟩ := h
    rw [calls, List.mem_append]
    exact (List.mem_append.1 mem).imp (ih₁ hu) (ih₂ hv)
  | alt a b ih₁ ih₂ =>
    rw [calls, List.mem_append]
    exact h.imp (ih₁ · mem) (ih₂ · mem)
  | opt a ih =>
    rw [words, Language.mem_add, Language.mem_one] at h
    rcases h with rfl | h
    · cases mem
    · exact ih h mem
  | star a ih | more a ih =>
    obtain ⟨rounds, rfl, each⟩ := Language.mem_kstar.1 h
    obtain ⟨u, hu, inside⟩ := List.mem_flatten.1 mem
    exact ih (each u hu) inside

theorem exists_of_needs {P : ρ → Bool} {e : Peg ρ} {w : List ρ} (h : w ∈ e.words) (need : e.needs P = true) :
    ∃ r ∈ w, P r = true := by
  induction e generalizing w with
  | text | char | inputEnd | ahead | notAhead | opt | star | more => cases need
  | call r =>
    rw [words, mem_singleton] at h
    exact ⟨r, by simp [h], need⟩
  | seq a b ih₁ ih₂ =>
    obtain ⟨u, hu, v, hv, rfl⟩ := h
    rcases Bool.or_eq_true_iff.1 need with need | need
    · obtain ⟨r, mem, yes⟩ := ih₁ hu need
      exact ⟨r, List.mem_append_left _ mem, yes⟩
    · obtain ⟨r, mem, yes⟩ := ih₂ hv need
      exact ⟨r, List.mem_append_right _ mem, yes⟩
  | alt a b ih₁ ih₂ =>
    obtain ⟨need₁, need₂⟩ := Bool.and_eq_true_iff.1 need
    rcases h with h | h
    · exact ih₁ h need₁
    · exact ih₂ h need₂

theorem exists_of_single {e : Peg ρ} {w : List ρ} (h : w ∈ e.words) (single : e.single = true) :
    ∃ r ∈ e.calls, w = [r] := by
  induction e with
  | call r => exact ⟨r, List.mem_singleton_self r, h⟩
  | alt a b ih₁ ih₂ =>
    obtain ⟨single₁, single₂⟩ := Bool.and_eq_true_iff.1 single
    rcases h with h | h
    · obtain ⟨r, mem, is⟩ := ih₁ h single₁
      exact ⟨r, List.mem_append_left _ mem, is⟩
    · obtain ⟨r, mem, is⟩ := ih₂ h single₂
      exact ⟨r, List.mem_append_right _ mem, is⟩
  | _ => cases single

namespace Matches

/-- The rules of the trees in a match are one of the expression's words. -/
theorem words {e : Peg ρ} {x : Texture} {c c' : Cursor} {ts : List (Derivation ρ)}
    (h : Matches g e x c (some (ts, c'))) (visible : x ≠ .atomic) : ts.map Derivation.rule ∈ e.words := by
  induction h using Matches.success with
  | text | char | inputEnd | ahead | notAhead => exact rfl
  | call _ body ih => exact rfl
  | callInToken hidden body ih =>
    rename_i r x c ts c'
    cases kind : g.kind r <;> simp_all [RuleKind.atCall]
  | seq first second ih₁ ih₂ =>
    rw [List.map_append]
    exact Language.append_mem_mul (ih₁ visible) (ih₂ visible)
  | altFirst first ih => exact .inl (ih visible)
  | altSecond first second ih => exact .inr (ih visible)
  | opt body ih => exact .inr (ih visible)
  | optNone body => exact .inl rfl
  | star first rounds ih₁ ih₂ | more first rounds ih₁ ih₂ =>
    rw [List.map_append]
    exact append_mem_kstar (ih₁ visible) (ih₂ visible)
  | starNone first | moreNone first => exact Language.nil_mem_kstar _

/-- A match without calls has no trees. -/
theorem trees_eq_nil {e : Peg ρ} {x : Texture} {c c' : Cursor} {ts : List (Derivation ρ)}
    (h : Matches g e x c (some (ts, c'))) (flat : e.calls = []) : ts = [] := by
  induction h using Matches.success with
  | call | callInToken => cases flat
  | seq first second ih₁ ih₂ =>
    obtain ⟨flat₁, flat₂⟩ := List.append_eq_nil_iff.1 flat
    rw [ih₁ flat₁, ih₂ flat₂, List.append_nil]
  | altFirst first ih => exact ih (List.append_eq_nil_iff.1 flat).1
  | altSecond first second ih => exact ih (List.append_eq_nil_iff.1 flat).2
  | opt body ih => exact ih flat
  | star first rounds ih₁ ih₂ | more first rounds ih₁ ih₂ => rw [ih₁ flat, ih₂ flat, List.append_nil]
  | _ => rfl

/-- The text of a match without calls, where no trivia is skipped, is one of the expression's spellings. -/
theorem spelling {e : Peg ρ} {x : Texture} {c c' : Cursor} {ts : List (Derivation ρ)}
    (h : Matches g e x c (some (ts, c'))) (tight : x ≠ .loose) (flat : e.calls = []) :
    ∃ text ∈ e.spellings, c.Reaches text c' := by
  have stays : ∀ d, g.between x d = d := between_of_ne_loose tight
  induction h using Matches.success with
  | text comes => exact ⟨_, rfl, .of_after? comes⟩
  | char passes => exact ⟨_, ⟨_, passes, rfl⟩, .one _ _ _⟩
  | inputEnd | ahead | notAhead => exact ⟨[], rfl, .refl _⟩
  | call | callInToken => cases flat
  | seq first second ih₁ ih₂ =>
    obtain ⟨flat₁, flat₂⟩ := List.append_eq_nil_iff.1 flat
    obtain ⟨u, hu, read₁⟩ := ih₁ tight flat₁ stays
    obtain ⟨v, hv, read₂⟩ := ih₂ tight flat₂ stays
    rw [stays] at read₂
    exact ⟨u ++ v, Language.append_mem_mul hu hv, read₁.append read₂⟩
  | altFirst first ih =>
    obtain ⟨u, hu, read⟩ := ih tight (List.append_eq_nil_iff.1 flat).1 stays
    exact ⟨u, .inl hu, read⟩
  | altSecond first second ih =>
    obtain ⟨u, hu, read⟩ := ih tight (List.append_eq_nil_iff.1 flat).2 stays
    exact ⟨u, .inr hu, read⟩
  | opt body ih =>
    obtain ⟨u, hu, read⟩ := ih tight flat stays
    exact ⟨u, .inr hu, read⟩
  | optNone => exact ⟨[], .inl rfl, .refl _⟩
  | star first rounds ih₁ ih₂ =>
    obtain ⟨u, hu, read₁⟩ := ih₁ tight flat stays
    obtain ⟨v, hv, read₂⟩ := ih₂ tight flat stays
    exact ⟨u ++ v, append_mem_kstar hu hv, read₁.append read₂⟩
  | more first rounds ih₁ ih₂ =>
    obtain ⟨u, hu, read₁⟩ := ih₁ tight flat stays
    obtain ⟨v, hv, read₂⟩ := ih₂ tight flat stays
    rw [stays] at read₁
    exact ⟨u ++ v, append_mem_kstar hu hv, read₁.append read₂⟩
  | starNone | moreNone => exact ⟨[], Language.nil_mem_kstar _, .refl _⟩

end Matches

end FlowScript.Peg
