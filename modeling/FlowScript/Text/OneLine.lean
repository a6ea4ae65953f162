import FlowScript.Text.Blank

/-!
# Text on one line
-/

namespace FlowScript.Text

/-- Text cut to `max` characters, the last of which is an ellipsis when something was cut. -/
def truncate (text : String) (max : Nat) : String :=
  if max = 0 then ""
  else if text.length ≤ max then text
  else String.ofList (text.toList.take (max - 1) ++ ['…'])

/-- The words of a text with one space between them. -/
def normalize (text : String) : String :=
  String.ofList ([' '].intercalate (words text.toList))

/-- The words of a text on one line, cut to `max` characters. -/
def oneLine (text : String) (max : Nat) : String :=
  truncate (normalize text) max

/-- The first line of a text and the lines after it. -/
def splitLines (cs : List Char) : List Char × List (List Char) :=
  cs.foldr (fun c (line, others) => if c = '\n' then ([], line :: others) else (c :: line, others)) ([], [])

/-- The lines of a text: the pieces between its line feeds, one at least. -/
def lines (text : String) : List String :=
  ((splitLines text.toList).1 :: (splitLines text.toList).2).map String.ofList

/-- The lines of a text; when there are more than `max`, the first of them and a line of dots. -/
def linesUpTo (text : String) (max : Option Nat) : List String :=
  let all := lines text
  match max with
  | some n => if 0 < n ∧ n < all.length then all.take n ++ ["..."] else all
  | none => all

/-- Lines, each with its line feed. -/
def joinLines (lines : List String) : String := String.join (lines.map (· ++ "\n"))

/-- The texts that are not empty, with a separator between them. -/
def joinTexts (texts : List String) (separator : String) : String :=
  separator.intercalate (texts.filter fun text => !text.isEmpty)

@[simp] theorem splitLines_nil : splitLines [] = ([], []) := rfl

theorem splitLines_cons (c : Char) (cs : List Char) :
    splitLines (c :: cs) =
      if c = '\n' then ([], (splitLines cs).1 :: (splitLines cs).2)
      else (c :: (splitLines cs).1, (splitLines cs).2) := rfl

/-- A cut text is no longer than asked. -/
theorem truncate_length_le (text : String) (max : Nat) : (truncate text max).length ≤ max := by
  unfold truncate
  split
  · simp [*]
  · split
    · assumption
    · simp only [String.length_ofList, List.length_append, List.length_take, List.length_singleton]
      omega

end FlowScript.Text
