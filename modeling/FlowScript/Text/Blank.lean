/-!
# Blanks and words

A blank is a character with the Unicode property `White_Space`. Words are the maximal runs of other characters.
-/

namespace FlowScript.Text

/-- The Unicode property `White_Space`. -/
def isBlank (c : Char) : Bool :=
  let n := c.toNat
  (9 ≤ n && n ≤ 13) || n == 0x20 || n == 0x85 || n == 0xA0 || n == 0x1680 || (0x2000 ≤ n && n ≤ 0x200A)
    || n == 0x2028 || n == 0x2029 || n == 0x202F || n == 0x205F || n == 0x3000

/-- The text without the blanks at its end. -/
def trimEnd : List Char → List Char
  | [] => []
  | c :: r =>
    match trimEnd r with
    | [] => if isBlank c then [] else [c]
    | d :: s => c :: d :: s

/-- The text without the blanks at its start. -/
def trimStart (cs : List Char) : List Char :=
  cs.dropWhile isBlank

/-- The text without the blanks around it. -/
def trim (cs : List Char) : List Char :=
  trimEnd (trimStart cs)

/-- A word before some others; one without characters is none. -/
def consWord (word : List Char) (others : List (List Char)) : List (List Char) :=
  if word.isEmpty then others else word :: others

/-- The word that a text starts with, which is empty where a blank comes first, and the words after it. -/
def splitWords (cs : List Char) : List Char × List (List Char) :=
  cs.foldr (fun c (word, others) => if isBlank c then ([], consWord word others) else (c :: word, others)) ([], [])

/-- The maximal runs of characters that are not blank, in order. -/
def words (cs : List Char) : List (List Char) :=
  consWord (splitWords cs).1 (splitWords cs).2

@[simp] theorem splitWords_nil : splitWords [] = ([], []) := rfl

theorem splitWords_cons (c : Char) (cs : List Char) :
    splitWords (c :: cs) = if isBlank c then ([], words cs) else (c :: (splitWords cs).1, (splitWords cs).2) := by
  rw [splitWords, List.foldr_cons]
  rfl

@[simp] theorem words_nil : words [] = [] := rfl

/-- A blank at the front of a text belongs to no word. -/
theorem words_cons_of_isBlank {c : Char} (blank : isBlank c = true) (cs : List Char) : words (c :: cs) = words cs := by
  rw [words, splitWords_cons, if_pos blank]
  rfl

/-- The space character is blank. -/
@[simp] theorem isBlank_space : isBlank ' ' = true := by decide

theorem trimEnd_length_le (cs : List Char) : (trimEnd cs).length ≤ cs.length := by
  induction cs with
  | nil => simp [trimEnd]
  | cons c r ih =>
    unfold trimEnd
    split
    · split <;> simp
    · rename_i d s h
      rw [h] at ih
      simpa using ih

end FlowScript.Text
