import FlowScript.Grammar.Basic
import FlowScript.Proofs.Peg.Words
import FlowScript.Proofs.Text.Ink

/-!
# Names

No character of a name is a blank, so a name is read as one word.
-/

namespace FlowScript.Grammar
open FlowScript.Unicode

theorem blanks_continue_no_name : Text.blanks.all (fun c => !(Identifier.isContinue c || c == '$')) = true := by
  decide +kernel

theorem blanks_start_no_name : Text.blanks.all (fun c => !(Identifier.isStart c || c == '_' || c == '$')) = true := by
  have never := blanks_continue_no_name
  simp only [List.all_eq_true, Bool.not_eq_true', Bool.or_eq_false_iff] at never ⊢
  intro c mem
  obtain ⟨continues, dollar⟩ := never c mem
  refine ⟨⟨Bool.eq_false_iff.2 fun starts => ?_, Bool.eq_false_iff.2 fun bar => ?_⟩, dollar⟩
  · rw [Identifier.isContinue_of_isStart starts] at continues
    cases continues
  · rw [eq_of_beq bar] at mem
    revert mem
    decide

/-- The text of an identifier has no blank in it. -/
theorem isBlank_of_mem_identifier {text : List Char} (spelled : text ∈ (ruleBody .identifier).spellings) :
    ∀ c ∈ text, Text.isBlank c = false := by
  have dark {test : Char → Bool} (never : Text.blanks.all (fun c => !test c) = true) {c : Char} (passes : test c = true) :
      Text.isBlank c = false := by
    refine Bool.eq_false_iff.2 fun blank => ?_
    have := List.all_eq_true.1 never c (Text.mem_blanks blank)
    rw [passes] at this
    cases this
  obtain ⟨_, rfl, _, ⟨_, ⟨first, starts, rfl⟩, _, rounds, rfl⟩, rfl⟩ := spelled
  obtain ⟨pieces, rfl, each⟩ := Language.mem_kstar.1 rounds
  intro c mem
  rcases List.mem_cons.1 (show c ∈ first :: pieces.flatten from mem) with rfl | later
  · exact dark blanks_start_no_name starts
  · obtain ⟨piece, among, mem⟩ := List.mem_flatten.1 later
    obtain ⟨d, continues, rfl⟩ := each piece among
    rw [List.mem_singleton.1 mem]
    exact dark blanks_continue_no_name continues

end FlowScript.Grammar
