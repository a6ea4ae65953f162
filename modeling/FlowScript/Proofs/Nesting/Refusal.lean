import FlowScript.Proofs.Nesting.Pass

/-!
# Which sources nest too deep

A source is refused at the first token that brings the weight above the limit, and the pass over its bytes finds that
token. More open brackets than the limit are always refused, and nothing is unless more tokens than the limit raise the
weight.
-/

namespace FlowScript
open Text (byteLength byteLength_append isBoundary)
open Nesting

theorem parseModule_eq_tooDeep_iff {source : String} {span : Span} :
    parseModule source = .error (.tooDeep span) ↔
      (tooDeep? source.toList).map (fun t => Span.ofOffsets source.toList t.start t.stop) = some span := by
  rw [parseModule]
  cases tooDeep? source.toList with
  | some t => simp
  | none =>
    refine iff_of_false (fun refused => ?_) nofun
    dsimp only at refused
    split at refused
    · cases refused
    · split at refused
      · cases refused
      · split at refused <;> cases refused

theorem exists_tooDeep_iff {source : String} :
    (∃ span, parseModule source = .error (.tooDeep span)) ↔ tooDeep? source.toList ≠ none := by
  simp only [parseModule_eq_tooDeep_iff]
  cases tooDeep? source.toList <;> simp

namespace Nesting

/-- Where a source is refused: at its first token that brings the weight above the limit. -/
structure RefusedAt (source : List Char) (span : Span) : Prop where
  nonempty : span.start.offset < span.stop.offset
  inside : span.stop.offset ≤ byteLength source
  starts : isBoundary source span.start.offset = true
  stops : isBoundary source span.stop.offset = true
  first : ∃ before t rest, tokens source = before ++ t :: rest ∧ span = Span.ofOffsets source t.start t.stop ∧
    State.start.Within (before.map Token.kind) ∧ limit < (State.start.after (before ++ [t])).weight

theorem refusedAt_of_tooDeep? {source : List Char} {t : Token} (refused : tooDeep? source = some t) :
    RefusedAt source (Span.ofOffsets source t.start t.stop) := by
  obtain ⟨before, rest, whole, within, deep⟩ := tooDeepFrom_eq_some_iff.1 refused
  have stands : t.StandsIn source 0 := Token.standsIn_of_mem_scan (by
    rw [← tokens, whole]
    exact List.mem_append_right _ List.mem_cons_self)
  obtain ⟨front, part, tail, cut, some_, start, stop⟩ := stands
  rw [Nat.zero_add] at start stop
  refine ⟨?_, ?_, ?_, ?_, before, t, rest, whole, rfl, within, deep⟩
  · change t.start < t.stop
    have pos := Nat.pos_of_ne_zero (mt Text.byteLength_eq_zero.1 some_)
    rw [start, stop, byteLength_append]
    omega
  · change t.stop ≤ _
    rw [stop, cut, byteLength_append _ tail]
    exact Nat.le_add_right _ _
  · change isBoundary source t.start = true
    rw [start, cut, List.append_assoc]
    exact Text.isBoundary_append _ _
  · change isBoundary source t.stop = true
    rw [stop, cut]
    exact Text.isBoundary_append _ _

/-- The pass over the bytes of a source goes forward with each round, keeps the sum of its levels, so that nothing is
    taken off that is not in it, and refuses the source exactly where reading it does: always if more brackets than the
    limit are open at once, never unless more tokens than the limit raise the weight, and at the first token beyond the
    limit. -/
theorem pass_exact (source : String) :
    (∀ p, Pass.Reached source.toList p →
      p.saved = p.levels.foldr (· + ·) 0 ∧
      (∀ kind, (p.account kind).saved = (p.account kind).levels.foldr (· + ·) 0) ∧
      (∀ outer levels, p.levels = outer :: levels → outer ≤ p.saved) ∧
      ∀ q, p.round source.toList = .goesOn q → p.index < q.index) ∧
    (∀ span, parseModule source = .error (.tooDeep span) ↔
      (Pass.start.run source.toList).map (fun (start, stop) => Span.ofOffsets source.toList start stop) = some span) ∧
    (∀ ts, ts <+: tokens source.toList → limit < openBrackets ts →
      ∃ span, parseModule source = .error (.tooDeep span)) ∧
    (∀ span, parseModule source = .error (.tooDeep span) →
      limit < (tokens source.toList).countP (fun t => t.kind.raises) ∧ RefusedAt source.toList span) := by
  refine ⟨fun p reached => ?_, fun span => ?_, fun ts first many => ?_, fun span refused => ?_⟩
  · have balanced := reached.balanced
    exact ⟨balanced, balanced.account, fun _ _ => balanced.le_saved, fun _ goes => (Pass.index_lt_of_round goes).1⟩
  · have faces : Pass.start.Faces source.toList (tokens source.toList) := .inl ⟨[], source.toList, rfl, rfl, rfl⟩
    rw [parseModule_eq_tooDeep_iff, Pass.run_eq faces rfl (Nat.zero_le _), Option.map_map]
    rfl
  · exact exists_tooDeep_iff.2 (tooDeep?_ne_none_of_openBrackets first many)
  · obtain ⟨t, deep, rfl⟩ := Option.map_eq_some_iff.1 (parseModule_eq_tooDeep_iff.1 refused)
    exact ⟨lt_countP_raises_of_tooDeep? deep, refusedAt_of_tooDeep? deep⟩

theorem pass_exact_openBrackets :
    limit < openBrackets (tokens (String.ofList (List.replicate 129 '(')).toList) ∧
      ∃ span, parseModule (String.ofList (List.replicate 129 '(')) = .error (.tooDeep span) ∧
        limit < (tokens (String.ofList (List.replicate 129 '(')).toList).countP (fun t => t.kind.raises) ∧
        RefusedAt (String.ofList (List.replicate 129 '(')).toList span := by
  obtain ⟨-, -, always, only⟩ := pass_exact (String.ofList (List.replicate 129 '('))
  have many : limit < openBrackets (tokens (String.ofList (List.replicate 129 '(')).toList) := by decide +kernel
  obtain ⟨span, refused⟩ := always _ (List.prefix_refl _) many
  exact ⟨many, span, refused, only span refused⟩

end Nesting
end FlowScript
