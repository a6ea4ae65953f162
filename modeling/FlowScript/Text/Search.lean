/-!
# Searching in text
-/

namespace FlowScript.Text

/-- Whether a pattern occurs somewhere in a text. -/
def occursIn (pattern : List Char) : List Char → Bool
  | [] => pattern.isEmpty
  | c :: r => pattern.isPrefixOf (c :: r) || occursIn pattern r

/-- Whether a pattern occurs somewhere in a text. -/
def contains (text pattern : String) : Bool := occursIn pattern.toList text.toList

/-- Whether one of some patterns occurs somewhere in a text. -/
def containsAny (text : String) (patterns : List String) : Bool := patterns.any (contains text)

/-- The parts of a text before and after the first occurrence of a pattern. -/
def splitAtFirst? (pattern : List Char) : List Char → Option (List Char × List Char)
  | [] => if pattern.isEmpty then some ([], []) else none
  | c :: r =>
    if pattern.isPrefixOf (c :: r) then some ([], (c :: r).drop pattern.length)
    else (splitAtFirst? pattern r).map fun (before, after) => (c :: before, after)

/-- The part of a text before the last occurrence of a character. -/
def beforeLast? (sought : Char) : List Char → Option (List Char)
  | [] => none
  | c :: r =>
    match beforeLast? sought r with
    | some before => some (c :: before)
    | none => if c = sought then some [] else none

/-- The text without one character at its end, if that is the one. -/
def dropLastIf (last : Char) : List Char → List Char
  | [] => []
  | [c] => if c = last then [] else [c]
  | c :: d :: r => c :: dropLastIf last (d :: r)

theorem occursIn_iff {pattern text : List Char} : occursIn pattern text = true ↔ pattern <:+: text := by
  induction text with
  | nil => cases pattern <;> simp [occursIn]
  | cons c r ih => simp [occursIn, ih, List.infix_cons_iff]

/-- What occurs in a part of a text occurs in the text. -/
theorem contains_of_infix {part text pattern : String} (inside : part.toList <:+: text.toList)
    (found : contains part pattern = true) : contains text pattern = true :=
  occursIn_iff.2 ((occursIn_iff.1 found).trans inside)

theorem containsAny_of_infix {part text : String} {patterns : List String} (inside : part.toList <:+: text.toList)
    (found : containsAny part patterns = true) : containsAny text patterns = true := by
  obtain ⟨pattern, mem, found⟩ := List.any_eq_true.1 found
  exact List.any_eq_true.2 ⟨pattern, mem, contains_of_infix inside found⟩

end FlowScript.Text
