import FlowScript.Parse.Nesting
import FlowScript.Proofs.Text.Slice
import Mathlib.Tactic.SplitIfs

/-!
# Tokens, character by character

Reading the tokens of a text goes through it one character after the other: each begins a token or none, and leads to
another place (`read`, `scan_cons`). So a token stands for a part of the text that is not empty, and the tokens of a text
up to a line feed do not depend on what follows (`scan_append_line`).
-/

namespace FlowScript.Nesting.Token
open Text (byteLength byteLength_append)

/-- What a character of code that is part of no word begins: a token, with its kind and length, or none; and the place
    behind the character. -/
def begins (c : Char) (r : List Char) : Option (TokenKind × Nat) × Place :=
  if c = '\n' then (some (.lineBreak, 1), .code)
  else if c = ' ' ∨ c = '\t' ∨ c = '\r' then (none, .code)
  else if c = '/' ∧ r.head? = some '/' then (none, .lineComment)
  else if c = '/' ∧ r.head? = some '*' then (none, .passing .blockComment)
  else if c = '\x22' ∨ c = '\x27' ∨ c = '\x60' then (some (.other, 1), .quote c)
  else
    match ofChar c r with
    | (kind, false) => (some (kind, 1), .code)
    | (kind, true) => (some (kind, 2), .passing .code)

/-- What a character begins that is read at a place, and the place behind it. -/
def read : Place → Char → List Char → Option (TokenKind × Nat) × Place
  | .passing after, _, _ => (none, after)
  | .lineComment, c, _ => if c = '\n' then (some (.lineBreak, 1), .code) else (none, .lineComment)
  | .blockComment, c, r => (none, if c = '*' ∧ r.head? = some '/' then .passing .code else .blockComment)
  | .quote mark, c, _ =>
    (none, if c = mark then .code else if c = '\\' then .passing (.quote mark) else .quote mark)
  | .word, c, r => if isWordChar c then (none, .word) else begins c r
  | .code, c, r =>
    if isWordChar c then
      (some (.word (c :: r.takeWhile isWordChar), byteLength (c :: r.takeWhile isWordChar)), .word)
    else begins c r

/-- A token that begins at an offset. -/
def beginningAt (n : Nat) (begun : TokenKind × Nat) : Token := ⟨begun.1, n, n + begun.2⟩

/-- The place behind a text. -/
def placeAfter : Place → List Char → Place
  | place, [] => place
  | place, c :: r => placeAfter (read place c r).2 r

/-! ## One character -/

theorem ofChar_eq (c : Char) (r : List Char) :
    ofChar c r =
      if c = '(' ∨ c = '[' ∨ c = '\x7b' then (.opening, false)
      else if c = ')' ∨ c = ']' then (.closing false, false)
      else if c = '\x7d' then (.closing true, false)
      else if c = ';' then (.semicolon, false)
      else if c = '?' then
        if r.head? = some '?' then (.other, true)
        else if r.head? = some '.' ∧ r.tail.head?.any Char.isDigit = false then (.other, true)
        else (.question, false)
      else if c = '=' ∧ r.head? = some '>' then (.arrow, true)
      else (.other, false) := by
  unfold ofChar
  split
  case h_8 =>
    cases r with
    | nil => rfl
    | cons d ds =>
      by_cases twice : d = '?'
      · subst twice; rfl
      by_cases dot : d = '.'
      · subst dot
        cases ds with
        | nil => rfl
        | cons e es => cases digit : e.isDigit <;> simp [digit]
      · simp [twice, dot]
  case h_9 => by_cases arrow : r.head? = some '>' <;> simp [arrow]
  case h_10 => simp_all
  all_goals rfl

theorem isWordChar_eq_false {c : Char} (other : isWordChar c = false) : c.toNat < 0x80 := by
  simp only [isWordChar, Bool.or_eq_false_iff, decide_eq_false_iff_not] at other
  omega

theorem utf8Size_of_ascii {c : Char} (ascii : c.toNat < 0x80) : c.utf8Size = 1 :=
  Char.utf8Size_eq_one_iff.2 (UInt32.le_iff_toNat_le.2 (Nat.le_of_lt_succ ascii))

/-- A character that is no line feed, no blank and no mark of a comment or a quote begins a token of one or two
    characters. -/
theorem begins_eq {c : Char} {r : List Char} (feed : c ≠ '\n') (blank : ¬ (c = ' ' ∨ c = '\t' ∨ c = '\r'))
    (line : ¬ (c = '/' ∧ r.head? = some '/')) (block : ¬ (c = '/' ∧ r.head? = some '*'))
    (unquoted : ¬ (c = '\x22' ∨ c = '\x27' ∨ c = '\x60')) :
    begins c r = (some ((ofChar c r).1, if (ofChar c r).2 then 2 else 1),
      if (ofChar c r).2 then .passing .code else .code) := by
  rw [begins, if_neg feed, if_neg blank, if_neg line, if_neg block, if_neg unquoted]
  rcases ofChar c r with ⟨kind, _ | _⟩ <;> rfl

theorem scanCode_eq (c : Char) (r : List Char) (n : Nat) (after : Place → Nat → List Token) :
    scanCode c r n after = ((begins c r).1.map (beginningAt n)).toList ++ after (begins c r).2 (n + 1) := by
  unfold scanCode begins
  split_ifs <;> try rfl
  obtain ⟨kind, two⟩ := ofChar c r
  cases two <;> rfl

/-- The tokens of a text are what its first character begins and those of the rest. -/
theorem scan_cons (place : Place) (c : Char) (r : List Char) (n : Nat) :
    scan place (c :: r) n =
      ((read place c r).1.map (beginningAt n)).toList ++ scan (read place c r).2 r (n + c.utf8Size) := by
  have size : isWordChar c = false → c.utf8Size = 1 := fun other => utf8Size_of_ascii (isWordChar_eq_false other)
  cases place with
  | passing after => rfl
  | lineComment =>
    rw [scan, read]
    split
    · rename_i feed
      subst feed
      rfl
    · rfl
  | blockComment =>
    rw [scan, read]
    split
    · rename_i ends
      rw [ends.1]
      rfl
    · rfl
  | quote mark =>
    rw [scan, read]
    split_ifs with ends escape
    · rfl
    · rw [escape]
      rfl
    · rfl
  | word =>
    rw [scan, read]
    split
    · rfl
    · rename_i other
      rw [scanCode_eq, size (by simpa using other)]
  | code =>
    rw [scan, read]
    split
    · rfl
    · rename_i other
      rw [scanCode_eq, size (by simpa using other)]

/-- Offsets shift the tokens and nothing else. -/
theorem kinds_scan (place : Place) (cs : List Char) (n m : Nat) :
    (scan place cs n).map kind = (scan place cs m).map kind := by
  induction cs generalizing place n m with
  | nil => rw [scan, scan]
  | cons c r ih =>
    rw [scan_cons, scan_cons, List.map_append, List.map_append, ih]
    cases (read place c r).1 <;> rfl

/-! ## Up to a line feed -/

section
variable (r rest : List Char)

theorem head?_append_line {d : Char} (other : d ≠ '\n') :
    (r ++ '\n' :: rest).head? = some d ↔ r.head? = some d := by
  cases r with
  | nil => simpa using other.symm
  | cons c r => rfl

theorem takeWhile_append_line : (r ++ '\n' :: rest).takeWhile isWordChar = r.takeWhile isWordChar := by
  induction r with
  | nil => rfl
  | cons c r ih => rw [List.cons_append, List.takeWhile_cons, List.takeWhile_cons, ih]

theorem ofChar_append_line (c : Char) : ofChar c (r ++ '\n' :: rest) = ofChar c r := by
  have digit : r.head? = some '.' →
      (r ++ '\n' :: rest).tail.head?.any Char.isDigit = r.tail.head?.any Char.isDigit := by
    match r with
    | [] => nofun
    | [_] => exact fun _ => rfl
    | _ :: _ :: _ => exact fun _ => rfl
  rw [ofChar_eq, ofChar_eq]
  simp (disch := decide) only [head?_append_line]
  split_ifs <;> simp_all

/-- What a character begins does not depend on anything behind a line feed, nor on whether one follows at all. -/
theorem read_append_line (place : Place) (c : Char) : read place c (r ++ '\n' :: rest) = read place c r := by
  have code : begins c (r ++ '\n' :: rest) = begins c r := by
    unfold begins
    simp (disch := decide) only [head?_append_line, ofChar_append_line]
  cases place <;> simp (disch := decide) only [read, head?_append_line, takeWhile_append_line, code]

end

/-- The tokens of two texts with a line feed between them. -/
theorem scan_append_line (place : Place) (cs rest : List Char) (n : Nat) :
    scan place (cs ++ '\n' :: rest) n =
      scan place cs n ++ scan (placeAfter place cs) ('\n' :: rest) (n + byteLength cs) := by
  induction cs generalizing place n with
  | nil => rw [scan]; rfl
  | cons c r ih =>
    rw [List.cons_append, scan_cons, read_append_line, ih, scan_cons place c r, List.append_assoc, placeAfter, byteLength,
      Nat.add_assoc]

/-! ## Where tokens stand -/

/-- A token stands for a part of a text that begins at an offset, and the part is not empty. -/
def StandsIn (cs : List Char) (n : Nat) (t : Token) : Prop :=
  ∃ before part rest, cs = before ++ part ++ rest ∧ part ≠ [] ∧ t.start = n + byteLength before ∧
    t.stop = n + byteLength (before ++ part)

theorem StandsIn.cons {cs : List Char} {c : Char} {n : Nat} {t : Token} (h : t.StandsIn cs (n + c.utf8Size)) :
    t.StandsIn (c :: cs) n := by
  obtain ⟨before, part, rest, rfl, some_, start, stop⟩ := h
  refine ⟨c :: before, part, rest, rfl, some_, ?_, ?_⟩
  · rw [start, byteLength, Nat.add_assoc]
  · rw [stop, List.cons_append, byteLength, Nat.add_assoc]

theorem StandsIn.stop_le {cs : List Char} {n : Nat} {t : Token} (h : t.StandsIn cs n) :
    t.stop ≤ n + byteLength cs := by
  obtain ⟨before, part, rest, rfl, -, -, stop⟩ := h
  rw [stop, byteLength_append (before ++ part) rest]
  exact Nat.add_le_add_left (Nat.le_add_right _ _) n

/-- A token of two characters takes one from what follows its first. -/
theorem exists_of_ofChar {c : Char} {r : List Char} {kind : TokenKind} (two : ofChar c r = (kind, true)) :
    ∃ d rest, r = d :: rest ∧ d.utf8Size = 1 := by
  unfold ofChar at two
  split at two <;> try simp at two
  · split at two <;> try simp at two
    · exact ⟨_, _, rfl, rfl⟩
    · exact ⟨_, _, rfl, rfl⟩
    · exact ⟨_, _, rfl, rfl⟩
  · cases r with
    | nil => simp at two
    | cons d rest =>
      by_cases arrow : d = '>'
      · exact ⟨d, rest, rfl, by rw [arrow]; rfl⟩
      · simp [arrow] at two

/-- What a character begins stands at its front. -/
theorem exists_part {place : Place} {c : Char} {r : List Char} {kind : TokenKind} {length : Nat}
    (begun : (read place c r).1 = some (kind, length)) : ∃ part rest, r = part ++ rest ∧ length = byteLength (c :: part) := by
  have word : ∀ {p : Char → Bool}, r = r.takeWhile p ++ r.dropWhile p := (List.takeWhile_append_dropWhile ..).symm
  have code : ∀ {k l}, isWordChar c = false → (begins c r).1 = some (k, l) →
      ∃ part rest, r = part ++ rest ∧ l = byteLength (c :: part) := by
    intro k l other is
    have size := utf8Size_of_ascii (isWordChar_eq_false other)
    have one : ∃ part rest, r = part ++ rest ∧ 1 = byteLength (c :: part) := ⟨[], r, rfl, by simp [byteLength, size]⟩
    unfold begins at is
    split_ifs at is
    · cases is
      exact one
    · cases is
      exact one
    · rcases read : ofChar c r with ⟨kind, two⟩
      rw [read] at is
      cases two with
      | false =>
        cases is
        exact one
      | true =>
        cases is
        obtain ⟨d, rest, rfl, small⟩ := exists_of_ofChar read
        exact ⟨[d], rest, rfl, by simp [byteLength, size, small]⟩
  cases place with
  | passing after => cases begun
  | blockComment => cases begun
  | quote mark => cases begun
  | lineComment =>
    rw [read] at begun
    split at begun
    · rename_i feed
      cases begun
      exact ⟨[], r, rfl, by rw [feed]; rfl⟩
    · cases begun
  | word =>
    rw [read] at begun
    split at begun
    · cases begun
    · rename_i other
      exact code (by simpa using other) begun
  | code =>
    rw [read] at begun
    split at begun
    · cases begun
      exact ⟨_, _, word, rfl⟩
    · rename_i other
      exact code (by simpa using other) begun

/-- Every token stands in the text that is read. -/
theorem standsIn_of_mem_scan {place : Place} {cs : List Char} {n : Nat} {t : Token} (mem : t ∈ scan place cs n) :
    t.StandsIn cs n := by
  induction cs generalizing place n with
  | nil => rw [scan] at mem; cases mem
  | cons c r ih =>
    rw [scan_cons] at mem
    rcases List.mem_append.1 mem with here | later
    · obtain ⟨⟨kind, length⟩, begun, rfl⟩ : ∃ begun, (read place c r).1 = some begun ∧ beginningAt n begun = t := by
        simpa using here
      obtain ⟨part, rest, rfl, rfl⟩ := exists_part begun
      exact ⟨[], c :: part, rest, rfl, List.cons_ne_nil _ _, rfl, rfl⟩
    · exact (ih later).cons

end FlowScript.Nesting.Token
