/-!
# Edits

A replacement of a byte range of a source text.
-/

namespace FlowScript

/-- A byte range to be replaced. -/
structure Edit where
  start : Nat
  stop : Nat
  replacement : String
  /-- Whether the rest of the line goes too, when it is otherwise blank. -/
  wholeLine : Bool
deriving Repr, DecidableEq

namespace Edit

/-- Removes a range. -/
def remove (start stop : Nat) : Edit := ⟨start, stop, "", false⟩

/-- Removes a range together with its line, if nothing else stands there. -/
def removeLine (start stop : Nat) : Edit := ⟨start, stop, "", true⟩

/-- Replaces a range. -/
def replace (start stop : Nat) (replacement : String) : Edit := ⟨start, stop, replacement, false⟩

end Edit
end FlowScript
