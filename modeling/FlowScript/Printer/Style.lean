import FlowScript.Ast.Operator

/-!
# Styles of printed code
-/

namespace FlowScript

/-- How code is laid out. -/
structure CodeStyle where
  /-- Everything on one line. -/
  compact : Bool
  /-- Trees keep no comments, so this changes nothing. -/
  comments : Bool
  /-- Object literals stay on one line, whatever the rest does. -/
  concise : Bool
deriving Repr, DecidableEq

namespace CodeStyle

/-- One line. -/
def oneLine : CodeStyle := ⟨true, false, true⟩

/-- Indented lines. -/
def readable : CodeStyle := ⟨false, false, false⟩

/-- Whether the members of an object literal take a line each. -/
def breaksObjects (style : CodeStyle) : Bool := !style.compact && !style.concise

/-- What stands between statements: a space on one line, else a line break and the indentation. -/
def newline (style : CodeStyle) (indent : Nat) : String :=
  if style.compact then " " else "\n" ++ String.join (List.replicate indent "  ")

end CodeStyle

/-- How a tree is printed: the layout, and words to take the place of operators. -/
structure Printer where
  style : CodeStyle
  words : BinaryOp → Option String

namespace Printer

/-- Prints operators by their symbols. -/
def plain (style : CodeStyle) : Printer := ⟨style, fun _ => none⟩

/-- The text of an operator. -/
def operator (p : Printer) (op : BinaryOp) : String := (p.words op).getD op.symbol

/-- The text before each member of an object literal, and before its closing brace. -/
def objectBreak (p : Printer) (indent : Nat) : String :=
  if p.style.breaksObjects then p.style.newline indent else " "

end Printer
end FlowScript
