import FlowScript.Erasure.Basic
import FlowScript.Proofs.Erasure.Cuts

/-!
# Erasing twice

A source that can be read is erased without a range error, and every erasure that has something to remove leaves less
ink. So a source stays as it is exactly when reading it finds no types.
What an erasure leaves may still hold types of its own: the lines around a removed statement can read together.
-/

namespace FlowScript
open Text (ink)

/-- The edits that reading a source finds cut it. -/
theorem typeEdits_cut {source : String} {m : Module} (read : parseModule source = .ok m) :
    ∀ e ∈ m.typeEdits, e.Cuts source.toList := by
  obtain ⟨tree, part, parsed, -, becomes, -, edits⟩ := exists_tree_of_parse read
  obtain ⟨fits, -, starts⟩ := fits_of_parse parsed
  have here : (Peg.Cursor.start source.toList).Reaches [] tree.start := starts ▸ .refl _
  rw [edits]
  exact fun e mem => (Parse.cuts_of_becomes fits becomes e mem).cuts here

/-- A source that can be read is erased, and has less ink then, unless it has no types. -/
theorem tryEraseTypes_of_parse {source : String} {m : Module} (read : parseModule source = .ok m) :
    ∃ text, tryEraseTypes source = .ok text ∧ ink text.toList ≤ ink source.toList ∧
      (m.typeEdits ≠ [] → ink text.toList < ink source.toList) := by
  obtain ⟨out, applied, le, less⟩ := Edit.applyAll_ink (typeEdits_cut read)
  refine ⟨String.ofList out, ?_, ?_, ?_⟩
  · simp only [tryEraseTypes, read, applied]
  · rwa [String.toList_ofList]
  · rwa [String.toList_ofList]

/-- A source stays as it is when no types are read in it, and loses ink otherwise. -/
theorem eraseTypes_eq_self_iff (source : String) :
    eraseTypes source = source ↔ ∀ m, parseModule source = .ok m → m.typeEdits = [] := by
  constructor
  · intro same m read
    by_contra some_
    obtain ⟨text, erased, -, less⟩ := tryEraseTypes_of_parse read
    have := less some_
    rw [show text = source by rw [← same, eraseTypes, erased]] at this
    exact Nat.lt_irrefl _ this
  · intro none
    unfold eraseTypes
    cases read : parseModule source with
    | error e => simp [tryEraseTypes, read]
    | ok m => simp [tryEraseTypes, read, none m read, Edit.applyAll_nil]

theorem ink_eraseTypes_lt {source : String} (changes : eraseTypes source ≠ source) :
    ink (eraseTypes source).toList < ink source.toList := by
  rw [Ne, eraseTypes_eq_self_iff] at changes
  push Not at changes
  obtain ⟨m, read, some_⟩ := changes
  obtain ⟨text, erased, -, less⟩ := tryEraseTypes_of_parse read
  rw [show eraseTypes source = text by rw [eraseTypes, erased]]
  exact less some_

/-- A second erasure changes nothing exactly when no types are read in what the first one leaves; otherwise it takes
    more ink away. -/
theorem eraseTypes_idempotent_iff (source : String) :
    (eraseTypes (eraseTypes source) = eraseTypes source ↔
      ∀ m, parseModule (eraseTypes source) = .ok m → m.typeEdits = []) ∧
    (eraseTypes (eraseTypes source) ≠ eraseTypes source →
      ink (eraseTypes (eraseTypes source)).toList < ink (eraseTypes source).toList) :=
  ⟨eraseTypes_eq_self_iff _, ink_eraseTypes_lt⟩

set_option maxRecDepth 100000 in
/-- Without the line between them, the mark before `b` reads as one after `a`. -/
theorem eraseTypes_not_idempotent :
    eraseTypes (eraseTypes "a\ntype A = B\n!b") = "a\nb" ∧ eraseTypes "a\ntype A = B\n!b" = "a\n!b" := by
  decide +kernel

set_option maxRecDepth 100000 in
/-- Without the type after `a`, the statement in parentheses reads as a call of it. -/
theorem eraseTypes_joins_statements :
    (parseModule "a as T\n(b)").toOption.map (fun m => m.items.map Stmt.kindName) =
        some ["expression", "expression"] ∧
      eraseTypes "a as T\n(b)" = "a\n(b)" ∧
      (parseModule "a\n(b)").toOption.map (fun m => m.items.map Stmt.kindName) = some ["expression"] := by
  decide +kernel

end FlowScript
