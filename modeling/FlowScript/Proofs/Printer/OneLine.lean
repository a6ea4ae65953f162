import FlowScript.Proofs.Printer.Agreement

/-!
# Code on one line

On one line there is no indentation, so a tree has the same code wherever it stands.
-/

namespace FlowScript

namespace Printer

/-- The printer that puts everything on one line and keeps all operators. -/
abbrev oneLine : Printer := .plain .oneLine

/-- On one line, no text depends on the indentation. -/
def steady : Agreement oneLine oneLine where
  Rel := Eq
  refl _ := rfl
  append front back := front ▸ back ▸ rfl
  newline _ _ := rfl
  objectBreak _ _ := rfl
  before _ _ _ operand := operand ▸ rfl
  operator _ := rfl

end Printer

open Printer (oneLine)

theorem Stmt.print_oneLine (i j : Nat) (s : Stmt) : s.print oneLine i = s.print oneLine j :=
  s.print_agree Printer.steady i j

end FlowScript
