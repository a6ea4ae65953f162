import FlowScript.Proofs.Nesting.Open

/-!
# Outside of quotes and comments

Outside of quotes and comments an opening bracket opens one, a closing bracket closes one, and every other character but a
mark of a quote or a comment leaves the brackets as they are and stays outside (`Climbs.plain`).
-/

namespace FlowScript.Nesting
open FlowScript.Peg (Cursor)

namespace Token

/-- Brackets and the marks of quotes. -/
def marks : List Char := ['(', '[', '\x7b', ')', ']', '\x7d', '\x22', '\x27', '\x60']

/-- A place where a text is read as code: neither in a quote nor in a comment. The character that a token of two takes
    with it is none that means anything. -/
inductive Outside : Place → List Char → Prop
  | code (rest : List Char) : Outside .code rest
  | word (rest : List Char) : Outside .word rest
  | passing {d : Char} (r : List Char) (inert : d ∈ ['?', '.', '>']) : Outside (.passing .code) (d :: r)
  | done (place : Place) : Outside place []

/-- A token that leaves the brackets as they are. -/
def IsFlat (kind : TokenKind) : Prop := ∀ d, kind.climb d = some d

/-- Where no token begins, none but flat ones do. -/
theorem isFlat_of_mem_none : ∀ begun ∈ (none : Option (TokenKind × Nat)), IsFlat begun.1 := nofun

/-- No comment begins with a character and those behind it. -/
def OpensNoComment (c : Char) (r : List Char) : Prop := c = '/' → r.head? ≠ some '/' ∧ r.head? ≠ some '*'

/-- A character that is no mark begins a token that leaves the brackets as they are, of one character or of two. -/
theorem exists_ofChar_eq {c : Char} (r : List Char) (plain : c ∉ marks) :
    ∃ kind, IsFlat kind ∧ (ofChar c r = (kind, false) ∨
      ofChar c r = (kind, true) ∧ ∃ d ∈ ['?', '.', '>'], r.head? = some d) := by
  simp only [marks, List.mem_cons, List.not_mem_nil, or_false, not_or] at plain
  rw [ofChar_eq]
  split_ifs with opening closing brace semicolon mark twice dot arrow
  · simp_all
  · simp_all
  · simp_all
  · exact ⟨_, fun _ => rfl, .inl rfl⟩
  · exact ⟨_, fun _ => rfl, .inr ⟨rfl, _, by decide, twice⟩⟩
  · exact ⟨_, fun _ => rfl, .inr ⟨rfl, _, by decide, dot.1⟩⟩
  · exact ⟨_, fun _ => rfl, .inl rfl⟩
  · exact ⟨_, fun _ => rfl, .inr ⟨rfl, _, by decide, arrow.2⟩⟩
  · exact ⟨_, fun _ => rfl, .inl rfl⟩

theorem begins_outside {c : Char} {r : List Char} (plain : c ∉ marks) (slash : OpensNoComment c r) :
    (∀ begun ∈ (begins c r).1, IsFlat begun.1) ∧ Outside (begins c r).2 r := by
  by_cases feed : c = '\n'
  · rw [begins, if_pos feed]
    refine ⟨?_, .code r⟩
    rintro _ ⟨⟩ d
    rfl
  by_cases blank : c = ' ' ∨ c = '\t' ∨ c = '\r'
  · rw [begins, if_neg feed, if_pos blank]
    exact ⟨isFlat_of_mem_none, .code r⟩
  have unquoted : ¬ (c = '\x22' ∨ c = '\x27' ∨ c = '\x60') := by
    rintro (rfl | rfl | rfl) <;> exact plain (by decide)
  rw [begins_eq feed blank (fun h => (slash h.1).1 h.2) (fun h => (slash h.1).2 h.2) unquoted]
  obtain ⟨kind, flat, one | ⟨two, d, inert, front⟩⟩ := exists_ofChar_eq r plain
  · rw [one]
    refine ⟨?_, .code r⟩
    rintro _ ⟨⟩
    exact flat
  · rw [two]
    obtain ⟨rest, rfl⟩ := List.head?_eq_some_iff.1 front
    refine ⟨?_, .passing rest inert⟩
    rintro _ ⟨⟩
    exact flat

/-- A character that is no mark leaves the brackets as they are, and what follows it is outside again. -/
theorem read_outside {place : Place} {c : Char} {r : List Char} (h : Outside place (c :: r)) (plain : c ∉ marks)
    (slash : OpensNoComment c r) :
    (∀ begun ∈ (read place c r).1, IsFlat begun.1) ∧ Outside (read place c r).2 r := by
  cases h with
  | passing r inert => exact ⟨isFlat_of_mem_none, .code r⟩
  | code =>
    rw [read]
    split
    · refine ⟨?_, .word r⟩
      rintro _ ⟨⟩ d
      rfl
    · exact begins_outside plain slash
  | word =>
    rw [read]
    split
    · exact ⟨isFlat_of_mem_none, .word r⟩
    · exact begins_outside plain slash

/-- What a character begins that is no part of a word, and is not passed over. -/
theorem read_eq_begins {place : Place} {c : Char} {r : List Char} (h : Outside place (c :: r))
    (other : isWordChar c = false) (active : c ∉ ['?', '.', '>']) : read place c r = begins c r := by
  cases h with
  | passing r inert => exact absurd inert active
  | code => rw [read, other]; rfl
  | word => rw [read, other]; rfl

/-- A question mark that comes next is read: it is not passed over as the second character of a token. -/
def Fresh (place : Place) (rest : List Char) : Prop := rest.head? = some '?' → place ≠ .passing .code

/-- Only a question mark takes another one with it. -/
theorem fresh_read {place : Place} {c : Char} {r : List Char} (simple : place ≠ .passing (.passing .code))
    (other : c ≠ '?') : Fresh (read place c r).2 r := by
  intro front
  have begun : (begins c r).2 ≠ .passing .code := by
    have twice : (ofChar c r).2 = false := by
      rw [ofChar_eq, front]
      split_ifs <;> simp_all
    unfold begins
    split_ifs
    all_goals try simp
    split <;> simp_all
  cases place with
  | passing after =>
    intro (is : after = _)
    exact simple (congrArg _ is)
  | lineComment =>
    rw [read]
    split <;> simp
  | blockComment =>
    rw [read, front]
    simp
  | quote mark =>
    rw [read]
    dsimp only
    split_ifs <;> simp
  | word =>
    rw [read]
    split
    · simp
    · exact begun
  | code =>
    rw [read]
    split
    · simp
    · exact begun

/-- A place where at most one character is passed over. -/
def Simple (place : Place) : Prop := ∀ after, place ≠ .passing (.passing after)

theorem Outside.simple {place : Place} {c : Char} {r : List Char} (h : Outside place (c :: r)) : Simple place := by
  cases h <;> nofun

theorem simple_begins (c : Char) (r : List Char) : Simple (begins c r).2 := by
  intro after
  unfold begins
  split_ifs
  all_goals try simp
  split <;> simp

theorem Simple.read {place : Place} (h : Simple place) (c : Char) (r : List Char) : Simple (read place c r).2 := by
  cases place with
  | passing after =>
    intro after' (is : after = _)
    exact h _ (congrArg _ is)
  | lineComment | blockComment =>
    rw [Token.read]
    split <;> simp [Simple]
  | quote mark =>
    rw [Token.read]
    dsimp only
    split_ifs <;> simp [Simple]
  | word | code =>
    rw [Token.read]
    split
    · simp [Simple]
    · exact simple_begins c r

/-- Behind any character but a question mark, a question mark is read. -/
theorem Stretch.fresh {c c' : Cursor} {p p' : Place} {ts : List Token} (h : Stretch c p ts c' p') (simple : Simple p) :
    c' = c ∧ p' = p ∨ ∃ front d, c.Reaches (front ++ [d]) c' ∧ (d ≠ '?' → Fresh p' c'.rest) := by
  induction h with
  | refl => exact .inl ⟨rfl, rfl⟩
  | @char d r n p _ _ _ rest ih =>
    rcases ih (simple.read d r) with ⟨rfl, rfl⟩ | ⟨front, last, read, fresh⟩
    · exact .inr ⟨[], d, .one n d r, fresh_read (simple _)⟩
    · exact .inr ⟨d :: front, last, (Cursor.Reaches.one n d r).append read, fresh⟩

end Token

/-! ## Brackets along a stretch -/

open Token (Stretch Outside read_outside marks OpensNoComment)

/-- Reading from one place outside of quotes and comments to another goes from `d` brackets to `e`. -/
def Climbs (c : Cursor) (d : Nat) (c' : Cursor) (e : Nat) : Prop :=
  ∀ p, Outside p c.rest → ∃ ts p', Stretch c p ts c' p' ∧ Outside p' c'.rest ∧ climb d ts = some e

namespace Climbs

variable {c c' c'' : Cursor} {d e f : Nat}

protected theorem refl (c : Cursor) (d : Nat) : Climbs c d c d :=
  fun p outside => ⟨[], p, .refl c p, outside, rfl⟩

protected theorem trans (h : Climbs c d c' e) (h' : Climbs c' e c'' f) : Climbs c d c'' f := by
  intro p outside
  obtain ⟨ts, p', first, outside, climbs⟩ := h p outside
  obtain ⟨us, p'', second, outside, climbs'⟩ := h' p' outside
  exact ⟨ts ++ us, p'', first.append second, outside, climb_of_append climbs climbs'⟩

/-- Brackets around it change nothing. -/
theorem add (h : Climbs c d c' e) (m : Nat) : Climbs c (d + m) c' (e + m) := by
  intro p outside
  obtain ⟨ts, p', stretch, outside, climbs⟩ := h p outside
  exact ⟨ts, p', stretch, outside, climb_add climbs m⟩

theorem of_level (h : Climbs c 0 c' 0) (d : Nat) : Climbs c d c' d := by
  simpa using h.add d

section
variable {x : Char} {r : List Char} {n : Position}

/-- One character, with what it begins and where that leads. -/
theorem one (each : ∀ p, Outside p (x :: r) →
    Outside (Token.read p x r).2 r ∧ climb d ((Token.read p x r).1.map (Token.beginningAt n.offset)).toList = some e) :
    Climbs ⟨x :: r, n⟩ d (Cursor.next n x r) e := by
  intro p outside
  obtain ⟨behind, climbs⟩ := each p outside
  refine ⟨_, _, .char (.refl _ _), behind, ?_⟩
  rwa [List.append_nil]

theorem plain (d : Nat) (plain : x ∉ marks) (slash : OpensNoComment x r) :
    Climbs ⟨x :: r, n⟩ d (Cursor.next n x r) d := by
  refine one fun p outside => ?_
  obtain ⟨flat, behind⟩ := read_outside outside plain slash
  refine ⟨behind, ?_⟩
  cases begun : (Token.read p x r).1 with
  | none => rfl
  | some token => simpa [climb, Token.beginningAt] using flat token begun d

theorem bracket (kind : TokenKind) (listed : x ∈ marks) (single : Token.begins x r = (some (kind, 1), .code))
    (climbs : kind.climb d = some e) : Climbs ⟨x :: r, n⟩ d (Cursor.next n x r) e := by
  refine one fun p outside => ?_
  have both : (marks.all fun c => !Token.isWordChar c && !(['?', '.', '>'].contains c)) = true := by decide
  have here := List.all_eq_true.1 both x listed
  simp only [Bool.and_eq_true, Bool.not_eq_true', List.contains_eq_mem, decide_eq_false_iff_not] at here
  rw [Token.read_eq_begins outside here.1 here.2, single]
  refine ⟨.code r, ?_⟩
  simp [climb, Token.beginningAt, climbs]

theorem opening (d : Nat) (listed : x ∈ ['(', '[', '\x7b']) : Climbs ⟨x :: r, n⟩ d (Cursor.next n x r) (d + 1) := by
  simp only [List.mem_cons, List.not_mem_nil, or_false] at listed
  rcases listed with rfl | rfl | rfl <;> exact bracket .opening (by decide) rfl rfl

theorem closing (d : Nat) (listed : x ∈ [')', ']', '\x7d']) : Climbs ⟨x :: r, n⟩ (d + 1) (Cursor.next n x r) d := by
  simp only [List.mem_cons, List.not_mem_nil, or_false] at listed
  rcases listed with rfl | rfl | rfl
  · exact bracket (.closing false) (by decide) rfl rfl
  · exact bracket (.closing false) (by decide) rfl rfl
  · exact bracket (.closing true) (by decide) rfl rfl

end
end Climbs

/-! ## Signs along a stretch -/

/-- Reading from one place outside of quotes and comments to another closes what it opens, and reads a sign of
    bracketless nesting outside of all brackets that it opens. -/
def Signs (c c' : Cursor) : Prop :=
  ∀ p, Outside p c.rest → ∃ us p' a t b, Stretch c p us c' p' ∧ Outside p' c'.rest ∧ us = a ++ t :: b ∧
    climb 0 a = some 0 ∧ t.kind.raises = true ∧ t.kind ≠ .opening ∧ climb 0 b = some 0

namespace Signs

variable {c c' c'' : Cursor}

theorem prepend (h : Signs c' c'') (before : Climbs c 0 c' 0) : Signs c c'' := by
  intro p outside
  obtain ⟨vs, p', first, outside, level⟩ := before p outside
  obtain ⟨us, p'', a, t, b, second, outside, rfl, climbs, raises, noBracket, behind⟩ := h p' outside
  refine ⟨vs ++ (a ++ t :: b), p'', vs ++ a, t, b, first.append second, outside, ?_, climb_of_append level climbs, raises,
    noBracket, behind⟩
  rw [List.append_assoc]

protected theorem append (h : Signs c c') (after : Climbs c' 0 c'' 0) : Signs c c'' := by
  intro p outside
  obtain ⟨us, p', a, t, b, first, outside, rfl, climbs, raises, noBracket, behind⟩ := h p outside
  obtain ⟨vs, p'', second, outside, level⟩ := after p' outside
  refine ⟨a ++ t :: b ++ vs, p'', a, t, b ++ vs, first.append second, outside, ?_, climbs, raises, noBracket,
    climb_of_append behind level⟩
  rw [List.append_assoc, List.cons_append]

/-- An arrow. -/
theorem arrow (comes : c.after? ['=', '>'] = some c') : Signs c c' := by
  obtain ⟨rest, n⟩ := c
  obtain ⟨r, rfl, ends⟩ : ∃ r, rest = '=' :: '>' :: r ∧ Cursor.next (Cursor.next n '=' ('>' :: r)).place '>' r = c' := by
    rcases rest with _ | ⟨x, _ | ⟨y, r⟩⟩
    · cases comes
    · simp [Cursor.after?, Cursor.next] at comes
    · simp only [Cursor.after?, Cursor.next] at comes
      split_ifs at comes with first second
      subst first second
      exact ⟨r, rfl, Option.some.inj comes⟩
  subst ends
  intro p outside
  have begins : Token.read p '=' ('>' :: r) = (some (.arrow, 2), .passing .code) := by
    rw [Token.read_eq_begins outside rfl (by decide)]
    rfl
  have first : Stretch ⟨'=' :: '>' :: r, n⟩ p _ (Cursor.next n '=' ('>' :: r)) _ := .char (.refl _ _)
  have second : Stretch (Cursor.next n '=' ('>' :: r)) (.passing .code) [] _ .code :=
    .char (d := '>') (r := r) (n := (Cursor.next n '=' ('>' :: r)).place) (.refl _ _)
  rw [begins] at first
  exact ⟨_, _, [], _, [], first.append second, .code r, rfl, rfl, rfl, TokenKind.noConfusion, rfl⟩

/-- A question mark that is read and no part of another sign, behind what leaves the brackets as they are. -/
theorem question {d : Cursor} (before : ∀ p, Outside p c.rest → ∃ ts p', Stretch c p ts d p' ∧ Outside p' d.rest ∧
      climb 0 ts = some 0 ∧ Token.Fresh p' d.rest) (comes : d.after? ['?'] = some c')
    (twice : c'.rest.head? ≠ some '?')
    (dot : ¬ (c'.rest.head? = some '.' ∧ c'.rest.tail.head?.any Char.isDigit = false)) : Signs c c' := by
  obtain ⟨r, n, rfl, rfl⟩ := Cursor.exists_of_after?_singleton comes
  intro p outside
  obtain ⟨ts, p', stretch, outside', flat, fresh⟩ := before p outside
  have read : Token.read p' '?' r = (some (.question, 1), .code) := by
    have begins : Token.begins '?' r = (some (.question, 1), .code) := by
      have kind : Token.ofChar '?' r = (.question, false) := by
        have twice : r.head? ≠ some '?' := twice
        have dot : ¬ (r.head? = some '.' ∧ r.tail.head?.any Char.isDigit = false) := dot
        rw [Token.ofChar_eq, if_neg (by decide), if_neg (by decide), if_neg (by decide), if_neg (by decide), if_pos rfl,
          if_neg twice, if_neg dot]
      have noSlash {q : Prop} : ¬ ('?' = '/' ∧ q) := fun both => absurd both.1 (by decide)
      rw [Token.begins_eq (by decide) (by decide) noSlash noSlash (by decide), kind]
      rfl
    cases outside' with
    | passing r inert => exact absurd rfl (fresh rfl)
    | code | word => exact begins
  have last : Stretch ⟨'?' :: r, n⟩ p' _ (Cursor.next n '?' r) _ := .char (.refl _ _)
  rw [read] at last
  exact ⟨_, _, ts, _, [], stretch.append last, .code r, rfl, flat, rfl, nofun, rfl⟩

end Signs
end FlowScript.Nesting
