import FlowScript.Printer.Render
import FlowScript.Proofs.Grammar.Progress
import FlowScript.Proofs.Parse.Build

/-!
# A source that the grammar matches is read

A source is read unless it nests too deep or the grammar does not match it. What is printed of a source that was read
need not be read as the same again.
-/

namespace FlowScript
open FlowScript.Peg (Cursor Derivation Matches)

/-- The part that a match of the whole program becomes, and the statements in it. -/
theorem build_of_parse {fuelPerChar : Nat} {source : List Char} {tree : Derivation Grammar.Rule}
    (parsed : grammar.parse fuelPerChar .program source = .ok tree) :
    ∃ part items, Parse.build tree = .ok part ∧ part.toBody = .ok items ∧ Parse.Becomes tree part := by
  obtain ⟨fits, isProgram, -⟩ := fits_of_parse parsed
  obtain ⟨part, built, sound, becomes⟩ := Parse.build_gives fits (by rw [isProgram]; rfl)
  have is : part.rule = .program := by rw [becomes.site]; exact isProgram
  obtain ⟨items, body, -⟩ := sound.toBody is rfl
  exact ⟨part, items, built, body, becomes⟩

/-- Every tree that the grammar gives is assembled: no match is refused where it stands. So a source is read, or nests
    too deep, or is reported as a mismatch, and then the grammar does not match it. -/
theorem parseModule_reads_every_match (source : String) :
    (∀ tree, grammar.parse fuelPerChar .program source.toList = .ok tree →
      ∃ part items, Parse.build tree = .ok part ∧ part.toBody = .ok items) ∧
    ((∃ m, parseModule source = .ok m) ∨ (∃ span, parseModule source = .error (.tooDeep span)) ∨
      (∃ report, parseModule source = .error (.mismatch report)) ∧
        Matches grammar (.call .program) .loose (Cursor.start source.toList) none) := by
  refine ⟨fun tree parsed => ?_, ?_⟩
  · obtain ⟨part, items, built, body, -⟩ := build_of_parse parsed
    exact ⟨part, items, built, body⟩
  · unfold parseModule
    dsimp only
    cases Nesting.tooDeep? source.toList with
    | some token => exact .inr (.inl ⟨_, rfl⟩)
    | none =>
      cases parsed : grammar.parse fuelPerChar .program source.toList with
      | error attempts => exact .inr (.inr ⟨⟨_, rfl⟩, matches_none_of_parse parsed⟩)
      | ok tree =>
        obtain ⟨part, items, built, body, -⟩ := build_of_parse parsed
        simp only [built, body]
        exact .inl ⟨_, rfl⟩

/-- The tree of matches behind what is read of a source, and the part that it became. -/
theorem exists_tree_of_parse {source : String} {m : Module} (read : parseModule source = .ok m) :
    ∃ tree part, grammar.parse fuelPerChar .program source.toList = .ok tree ∧ Parse.build tree = .ok part ∧
      Parse.Becomes tree part ∧ part.toBody = .ok m.items ∧ m.typeEdits = part.edits := by
  unfold parseModule at read
  dsimp only at read
  split at read
  · cases read
  · split at read
    · cases read
    · rename_i tree parsed
      obtain ⟨part, items, built, body, becomes⟩ := build_of_parse parsed
      simp only [built, body] at read
      cases read
      exact ⟨tree, part, parsed, built, becomes, body, rfl⟩

/-- A source that is read nests nowhere too deep. -/
theorem tooDeep?_of_parse {source : String} {m : Module} (read : parseModule source = .ok m) :
    Nesting.tooDeep? source.toList = none := by
  unfold parseModule at read
  dsimp only at read
  split at read
  · cases read
  · assumption

/-- What is computed of a source is so of what is read. -/
theorem exists_of_toOption_map {α β ε : Type} {result : Except ε β} {f : β → α} {a : α}
    (h : result.toOption.map f = some a) : ∃ b, result = .ok b ∧ f b = a := by
  cases result with
  | error e => simp [Except.toOption] at h
  | ok b => exact ⟨b, rfl, by simpa [Except.toOption] using h⟩

theorem exists_of_toOption_bind {α β ε : Type} {result : Except ε β} {f : β → Option α} {a : α}
    (h : result.toOption.bind f = some a) : ∃ b, result = .ok b ∧ f b = some a := by
  cases result with
  | error e => simp [Except.toOption] at h
  | ok b => exact ⟨b, rfl, h⟩

/-- What is computed of the characters of a source is so of the statements that are read. -/
theorem exists_of_chars {α : Type} {source : String} {chars : List Char} {f : List Stmt → α} {a : α}
    (is : source.toList = chars) (accepted : Nesting.tooDeep? chars = none)
    (computed : ((grammar.parse fuelPerChar .program chars).toOption.bind fun tree =>
      (Parse.build tree).toOption.bind fun part => part.toBody.toOption.map f) = some a) :
    ∃ m, parseModule source = .ok m ∧ f m.items = a := by
  obtain ⟨tree, parsed, rest⟩ := exists_of_toOption_bind computed
  obtain ⟨part, built, rest⟩ := exists_of_toOption_bind rest
  obtain ⟨items, body, rfl⟩ := exists_of_toOption_map rest
  refine ⟨⟨items, part.edits, part.span⟩, ?_, rfl⟩
  simp only [parseModule, is, accepted, parsed, built, body]

/-! ## Reading what is printed -/

set_option maxRecDepth 100000 in
/-- A number before a property is printed without the space that keeps them apart, and reads as another number. -/
theorem number_before_property_not_read_back :
    (parseModule "1 .x").toOption.map (fun m => m.items.map Stmt.renderCompact) = some ["1.x;"] ∧
      (parseModule "1 .x").toOption.map (fun m => m.items.map Stmt.kindName) = some ["expression"] ∧
      (parseModule "1.x;").toOption.map (fun m => m.items.map Stmt.kindName) = some ["expression", "expression"] := by
  decide +kernel

end FlowScript
