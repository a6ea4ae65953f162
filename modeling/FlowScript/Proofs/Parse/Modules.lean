import FlowScript.Proofs.Parse.Made

/-!
# Assembling imports, exports and patterns

An import or export becomes one statement, and a list of names tells whether it binds a value. Only these come with
edits for a whole statement or a list.
-/

namespace FlowScript.Parse
open FlowScript.Grammar (Rule ruleBody)

variable {parts : List Part} {site : Site}

/-- A list of names, which is written anew where it ends. -/
theorem specifiers_fills {stop : Option Nat} (makes : ∀ binds, Makes site.rule (.specifiers binds))
    (ends : ∀ n, stop = some n → ListEnd site parts n) : Gives (specifiers site stop parts) (Fills site parts) := by
  unfold specifiers
  dsimp only
  split
  · exact .ok ⟨makes true, List.forall_mem_nil _⟩
  · rename_i fewer
    split
    · exact .ok ⟨makes false, List.forall_mem_nil _⟩
    · rename_i some_
      refine .ok ⟨makes true, ?_⟩
      cases stop with
      | none => exact List.forall_mem_nil _
      | some n =>
        intro e mem
        rw [List.mem_singleton.1 mem]
        refine .list (ends n rfl) (by simpa using some_) ?_
        have le : (keptSpecifiers parts).length ≤ (parts.filter isSpecifier).length := by
          rw [keptSpecifiers_eq, List.length_map, ← List.countP_eq_length_filter, ← List.countP_eq_length_filter]
          exact List.countP_mono_left fun _ _ => isSpecifier_of_isKept
        exact Nat.lt_of_le_of_ne le fewer

/-- The statement goes with its line, or stays. -/
theorem line_own (parts : List Part) (whole : site.rule = .importDecl ∨ site.rule = .exportDecl) (goes : Bool) :
    ∀ e ∈ (if goes then [site.lineRemoval] else []), OwnEdit site parts e := by
  intro e mem
  cases goes with
  | true =>
    rw [List.mem_singleton.1 mem]
    exact .line whole
  | false => cases mem

theorem importDecl_fills (is : site.rule = .importDecl) : Gives (importDecl site parts) (Fills site parts) := by
  have makes : ∀ stmt, Makes site.rule (.stmt stmt) := fun _ => is ▸ .of_role rfl rfl
  exact .ok ⟨makes _, line_own parts (.inl is) _⟩

theorem exportDecl_fills (is : site.rule = .exportDecl) (h : Inside (ruleBody .exportDecl) parts) :
    Gives (exportDecl site parts) (Fills site parts) := by
  obtain ⟨ps, qs, rfl, first, second⟩ := h.seq
  obtain ⟨word, rfl, -, isExport⟩ := first.call
  obtain ⟨part, rfl, sound, called⟩ := second.single rfl
  have others : ([word] ++ [part]).filter (!·.isKeyword .exportWord) = [part] := by
    have : part.rule ≠ .keyword .exportWord := by
      intro is
      rw [is] at called
      revert called
      decide
    simp [Part.isKeyword, isExport, this]
  have makes : ∀ stmt, Makes site.rule (.stmt stmt) := fun _ => is ▸ .of_role rfl rfl
  have whole := line_own ([word] ++ [part]) (.inr is)
  simp only [exportDecl, others]
  have cases_ : part.rule = .exportTypeList ∨ part.rule = .exportDefault ∨ part.rule = .exportList ∨
      part.rule = .exportAll ∨ part.rule = .statement := by
    simpa [Peg.oneOf, Peg.calls] using called
  rcases cases_ with isTypes | isDefault | isList | isAll | isStmt
  · simp only [isTypes]
    exact .ok ⟨makes _, whole true⟩
  · obtain ⟨stmt, piece⟩ := Piece.eq_stmt (sound.role isDefault rfl)
    simp only [isDefault, piece]
    exact .ok ⟨makes _, whole false⟩
  · obtain ⟨binds, piece⟩ := Piece.eq_specifiers (sound.role isList rfl)
    simp only [isList, piece]
    refine .ok ⟨makes _, ?_⟩
    cases binds with
    | true => exact whole false
    | false => exact whole true
  · simp only [isAll]
    exact .ok ⟨makes _, whole false⟩
  · obtain ⟨stmt, piece⟩ := Piece.eq_stmt (sound.role isStmt rfl)
    simp only [isStmt, piece]
    exact .ok ⟨makes _, whole (isTypeOnly stmt)⟩

theorem exportDefault_fills (is : site.rule = .exportDefault) (h : Inside (ruleBody .exportDefault) parts) :
    Gives (exportDefault site parts) (Fills site parts) := by
  obtain ⟨ps, qs, rfl, first, second⟩ := h.seq
  obtain ⟨word, rfl, -, isDefault⟩ := first.call
  have found : ∀ part rest, part.rule ≠ .keyword .defaultWord →
      ([word] ++ part :: rest).find? (!·.isKeyword .defaultWord) = some part := by
    intro part rest isOther
    simp [Part.isKeyword, isDefault, isOther]
  unfold exportDefault
  rcases second.alt with func | value
  · obtain ⟨part, rfl, sound, isFunc⟩ := func.call
    obtain ⟨stmt, piece⟩ := Piece.eq_stmt (sound.role isFunc rfl)
    simp only [found part [] (by rw [isFunc]; nofun), piece]
    exact plain_fills is (.of_role rfl rfl)
  · obtain ⟨vs, rest, rfl, value, -⟩ := value.seq
    obtain ⟨part, rfl, sound, isExpr⟩ := value.call
    obtain ⟨expr, piece⟩ := Piece.eq_expr (sound.role isExpr rfl)
    simp only [List.cons_append, List.nil_append] at found ⊢
    simp only [found part rest (by rw [isExpr]; nofun), piece]
    refine .bind (sound.toExpr isExpr rfl) fun expr _ => ?_
    exact plain_fills is (.of_role rfl rfl)

end FlowScript.Parse
