import FlowScript.Text.Blank

/-!
# Trailing blanks and comments

The text of a piece of syntax may end in blanks and comments that belong to no token. `dropTrivia` cuts them off,
looking at the text from its end: blanks, a block comment up to its opening, or a line comment on the last line.
-/

namespace FlowScript.Source

/-- The text before the last place where `mark` occurs. -/
def beforeLast? (mark : List Char) : List Char → Option (List Char)
  | [] => none
  | c :: r =>
    match beforeLast? mark r with
    | some before => some (c :: before)
    | none => if mark.isPrefixOf (c :: r) then some [] else none

/-- The text of a line before its `//`, if it has one outside quotes; `quote` is the mark of the open quote. -/
def beforeLineComment? : Option Char → List Char → Option (List Char)
  | _, [] => none
  | _, [_] => none
  | some mark, c :: d :: r =>
    if c = '\\' then (beforeLineComment? (some mark) r).map fun before => c :: d :: before
    else (beforeLineComment? (if c = mark then none else some mark) (d :: r)).map (c :: ·)
  | none, c :: d :: r =>
    if c = '\x22' ∨ c = '\x27' ∨ c = '\x60' then (beforeLineComment? (some c) (d :: r)).map (c :: ·)
    else if c = '/' ∧ d = '/' then some []
    else (beforeLineComment? none (d :: r)).map (c :: ·)

/-- The last line of a text, and what stands before it. -/
def splitLastLine : List Char → List Char × List Char
  | [] => ([], [])
  | c :: r =>
    match splitLastLine r with
    | ([], last) => if c = '\n' then ([c], last) else ([], c :: last)
    | (before, last) => (c :: before, last)

/-- The text before the line comment on its last line, if there is one. -/
def beforeLastLineComment? (text : List Char) : Option (List Char) :=
  let (before, last) := splitLastLine text
  (beforeLineComment? none last).map (before ++ ·)

theorem beforeLast?_length {mark text before : List Char} (h : beforeLast? mark text = some before) :
    before.length < text.length := by
  induction text generalizing before with
  | nil => simp [beforeLast?] at h
  | cons c r ih =>
    unfold beforeLast? at h
    split at h
    · rename_i rest found
      cases h
      simpa using ih found
    · split at h <;> simp_all

theorem beforeLineComment?_length {quote : Option Char} {text before : List Char}
    (h : beforeLineComment? quote text = some before) : before.length < text.length := by
  fun_induction beforeLineComment? quote text generalizing before
  case case1 => cases h
  case case2 => cases h
  case case6 => cases h; simp
  all_goals
    rename_i ih
    obtain ⟨b, hb, rfl⟩ := Option.map_eq_some_iff.1 h
    have := ih hb
    simp at this ⊢
    omega

theorem splitLastLine_append (text : List Char) : (splitLastLine text).1 ++ (splitLastLine text).2 = text := by
  induction text with
  | nil => rfl
  | cons c r ih =>
    unfold splitLastLine
    split
    · rename_i last h
      rw [h] at ih
      split <;> simp_all
    · rename_i before last _ h
      rw [h] at ih
      simpa using ih

theorem beforeLastLineComment?_length {text before : List Char} (h : beforeLastLineComment? text = some before) :
    before.length < text.length := by
  obtain ⟨b, hb, rfl⟩ := Option.map_eq_some_iff.1 h
  have := beforeLineComment?_length hb
  have := congrArg List.length (splitLastLine_append text)
  simp at this ⊢
  omega

/-- The text before the comment that ends a text without trailing blanks. -/
def beforeComment? (text : List Char) : Option (List Char) :=
  if ['*', '/'].isSuffixOf text then beforeLast? ['/', '*'] text else beforeLastLineComment? text

theorem beforeComment?_length {text before : List Char} (h : beforeComment? text = some before) :
    before.length < text.length := by
  unfold beforeComment? at h
  split at h
  · exact beforeLast?_length h
  · exact beforeLastLineComment?_length h

/-- The text without the blanks and comments at its end. -/
def dropTrivia (text : List Char) : List Char :=
  match _found : beforeComment? (Text.trimEnd text) with
  | some before => dropTrivia before
  | none => Text.trimEnd text
termination_by text.length
decreasing_by
  exact Nat.lt_of_lt_of_le (beforeComment?_length _found) (Text.trimEnd_length_le text)

end FlowScript.Source
