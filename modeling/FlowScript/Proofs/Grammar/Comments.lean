import FlowScript.Grammar.Trivia
import FlowScript.Proofs.Peg.Course

/-!
# The rules of trivia

Trivia is blanks, and comments with blanks behind them, as many as there are. These are parsing expressions like the
bodies of rules, and the pass over the characters goes exactly as far as they match.
-/

namespace FlowScript.Grammar.Trivia
open FlowScript.Peg (Cursor Matches oneOf parts anyChar)

variable {ρ : Type} {g : Peg.Grammar ρ}

def blank : Peg ρ := .char isBlank

def newline : Peg ρ := oneOf [.text ['\n'], .text ['\r', '\n'], .text ['\r']]

/-- A character of a block comment. -/
def blockChar : Peg ρ := .seq (.notAhead (.text ['*', '/'])) anyChar

/-- A character of a line comment. -/
def lineChar : Peg ρ := .seq (.notAhead newline) anyChar

def blockComment : Peg ρ := parts [.text ['/', '*'], .star blockChar, .text ['*', '/']]

def lineComment : Peg ρ := .seq (.text ['/', '/']) (.star lineChar)

def comment : Peg ρ := .alt blockComment lineComment

/-- A comment and the blanks behind it. -/
def commented : Peg ρ := .seq comment (.star blank)

def trivia : Peg ρ := .seq (.star blank) (.star commented)

/-! ## Where nothing is skipped between parts -/

/-- An expression without calls of rules reads from one place to another, and nothing is skipped on the way. -/
abbrev Reads (g : Peg.Grammar ρ) (e : Peg ρ) (c c' : Cursor) : Prop := Matches g e .atomic c (some ([], c'))

/-- An expression does not match at a place where nothing is skipped. -/
abbrev Misses (g : Peg.Grammar ρ) (e : Peg ρ) (c : Cursor) : Prop := Matches g e .atomic c none

section
variable {a b : Peg ρ} {c c' c'' : Cursor}

theorem reads_seq (first : Reads g a c c') (second : Reads g b c' c'') : Reads g (.seq a b) c c'' :=
  Matches.seq first second

theorem reads_more (first : Reads g a c c') (rounds : Reads g (.more a) c' c'') : Reads g (.more a) c c'' :=
  Matches.more first rounds

/-- With nothing skipped between the rounds, the first round is like the others. -/
theorem star_of_more {ts : List (Peg.Derivation ρ)} (rounds : Matches g (.more a) .atomic c (some (ts, c'))) :
    Matches g (.star a) .atomic c (some (ts, c')) := by
  cases rounds with
  | more first rounds => exact .star first rounds
  | moreNone first => exact .starNone first

theorem reads_char {test : Char → Bool} {d : Char} (passes : test d = true) (r : List Char) (n : Position) :
    Reads g (.char test) ⟨d :: r, n⟩ ⟨r, n.next d⟩ :=
  .char passes

theorem misses_text {d : Char} {ds r : List Char} (n : Position) (other : ¬ d :: ds <+: r) :
    Misses g (.text (d :: ds)) ⟨r, n⟩ := by
  refine .textFails (Option.eq_none_iff_forall_ne_some.2 fun c' comes => other ?_)
  exact ⟨c'.rest, (Cursor.Reaches.of_after? comes).rest.symm⟩

theorem reads_one (d : Char) (r : List Char) (n : Position) : Reads g (.text [d]) ⟨d :: r, n⟩ ⟨r, n.next d⟩ :=
  .text (by simp [Cursor.after?, Cursor.next])

theorem reads_two (d e : Char) (r : List Char) (n : Position) :
    Reads g (.text [d, e]) ⟨d :: e :: r, n⟩ ⟨r, (n.next d).next e⟩ :=
  .text (by simp [Cursor.after?, Cursor.next])

end

/-! ## Characters of comments -/

theorem misses_blank {c : Cursor} (ink : ∀ d r, c.rest = d :: r → isBlank d = false) : Misses g blank c := .charFails ink

theorem misses_newline {d : Char} (other : endsLine d = false) (r : List Char) (n : Position) :
    Misses g newline ⟨d :: r, n⟩ := by
  simp only [endsLine, Bool.or_eq_false_iff, beq_eq_false_iff_ne] at other
  obtain ⟨feed, return_⟩ := other
  refine .altSecond (misses_text n ?_) (.altSecond (misses_text n ?_) (misses_text n ?_))
  all_goals
    intro found
    obtain ⟨same, -⟩ := List.cons_prefix_cons.1 found
  · exact feed same.symm
  · exact return_ same.symm
  · exact return_ same.symm

theorem misses_newline_nil (n : Position) : Misses g newline ⟨[], n⟩ := by
  refine .altSecond (misses_text n ?_) (.altSecond (misses_text n ?_) (misses_text n ?_)) <;> nofun

theorem exists_reads_newline {d : Char} (ends : endsLine d = true) (r : List Char) (n : Position) :
    ∃ c', Reads g newline ⟨d :: r, n⟩ c' := by
  simp only [endsLine, Bool.or_eq_true, beq_iff_eq] at ends
  rcases ends with rfl | rfl
  · exact ⟨_, .altFirst (reads_one '\n' r n)⟩
  · have feed : Misses g (.text ['\n']) ⟨'\r' :: r, n⟩ := misses_text n (by simp)
    cases comes : Cursor.after? ['\r', '\n'] ⟨'\r' :: r, n⟩ with
    | some c' => exact ⟨c', .altSecond feed (.altFirst (.text comes))⟩
    | none => exact ⟨_, .altSecond feed (.altSecond (.textFails comes) (reads_one '\r' r n))⟩

theorem reads_lineChar {d : Char} (other : endsLine d = false) (r : List Char) (n : Position) :
    Reads g lineChar ⟨d :: r, n⟩ ⟨r, n.next d⟩ :=
  reads_seq (.notAhead (misses_newline other r n)) (reads_char rfl r n)

theorem misses_lineChar {d : Char} (ends : endsLine d = true) (r : List Char) (n : Position) :
    Misses g lineChar ⟨d :: r, n⟩ := by
  obtain ⟨c', read⟩ := exists_reads_newline (g := g) ends r n
  exact .seqFails (.notAheadFails read)

theorem misses_any_nil (n : Position) : Misses g anyChar ⟨[], n⟩ := .charFails nofun

theorem misses_lineChar_nil (n : Position) : Misses g lineChar ⟨[], n⟩ :=
  .seqFailsLater (.notAhead (misses_newline_nil n)) (misses_any_nil n)

theorem reads_blockChar {d : Char} {r : List Char} (other : ¬ ['*', '/'] <+: d :: r) (n : Position) :
    Reads g blockChar ⟨d :: r, n⟩ ⟨r, n.next d⟩ :=
  reads_seq (.notAhead (misses_text n other)) (reads_char rfl r n)

theorem misses_blockChar (r : List Char) (n : Position) : Misses g blockChar ⟨'*' :: '/' :: r, n⟩ :=
  .seqFails (.notAheadFails (reads_two '*' '/' r n))

theorem misses_blockChar_nil (n : Position) : Misses g blockChar ⟨[], n⟩ :=
  .seqFailsLater (.notAhead (misses_text n nofun)) (misses_any_nil n)

/-! ## The pass -/

/-- What the pass goes on with between comments. -/
def Between (g : Peg.Grammar ρ) (c stop : Cursor) : Prop :=
  ∃ mid, Reads g (.more blank) c mid ∧ Reads g (.more commented) mid stop

/-- What the pass over trivia amounts to from a place in it on. -/
def Passes (g : Peg.Grammar ρ) (c stop : Cursor) : Place → Prop
  | .between => Between g c stop
  | .line => ∃ mid, Reads g (.more lineChar) c mid ∧ Between g mid stop
  | .block opened =>
    (∃ mid close, Reads g (.more blockChar) c mid ∧ Reads g (.text ['*', '/']) mid close ∧ Between g close stop) ∨
      ∃ mid, Reads g (.more blockChar) c mid ∧ Misses g (.text ['*', '/']) mid ∧ stop = opened

theorem between_of_blank {d : Char} {r : List Char} {n : Position} {stop : Cursor} (white : isBlank d = true)
    (later : Between g ⟨r, n.next d⟩ stop) : Between g ⟨d :: r, n⟩ stop := by
  obtain ⟨mid, blanks, comments⟩ := later
  exact ⟨mid, reads_more (reads_char white r n) blanks, comments⟩

/-- Where neither a blank nor a comment comes next, the pass stays. -/
theorem between_of_misses {c : Cursor} (noBlank : Misses g blank c) (noComment : Misses g comment c) : Between g c c :=
  ⟨c, .moreNone noBlank, .moreNone (.seqFails noComment)⟩

theorem between_of_comment {c mid stop : Cursor} (noBlank : Misses g blank c) (read : Reads g comment c mid)
    (later : Between g mid stop) : Between g c stop := by
  obtain ⟨next, blanks, comments⟩ := later
  exact ⟨c, .moreNone noBlank, reads_more (reads_seq read (star_of_more blanks)) comments⟩

/-- A comment begins with a slash, and with another one or a star behind it. -/
theorem misses_comment {c : Cursor} (noBlock : ¬ ['/', '*'] <+: c.rest) (noLine : ¬ ['/', '/'] <+: c.rest) :
    Misses g comment c :=
  .altSecond (.seqFails (misses_text c.place noBlock)) (.seqFails (misses_text c.place noLine))

theorem passes_scan (place : Place) (cs : List Char) (n : Position) :
    Passes g ⟨cs, n⟩ (scan place cs n) place := by
  fun_induction scan place cs n with
  | case1 n => exact between_of_misses (misses_blank nofun) (misses_comment nofun nofun)
  | case2 c n blank =>
    exact between_of_blank blank (between_of_misses (misses_blank nofun) (misses_comment nofun nofun))
  | case3 c n ink =>
    refine between_of_misses (misses_blank ?_) (misses_comment ?_ ?_)
    · rintro _ _ ⟨⟩
      exact Bool.eq_false_iff.2 ink
    · simp
    · simp
  | case4 c d r n blank ih => exact between_of_blank blank ih
  | case5 c d r n ink line ih =>
    obtain ⟨rfl, rfl⟩ := line
    obtain ⟨mid, chars, later⟩ := ih
    refine between_of_comment (misses_blank ?_) (.altSecond ?_ (reads_seq (reads_two '/' '/' r n) (star_of_more chars))) later
    · rintro _ _ ⟨⟩
      decide
    · exact .seqFails (misses_text n (by simp))
  | case6 c d r n ink notLine block ih =>
    obtain ⟨rfl, rfl⟩ := block
    have noBlank : Misses g blank ⟨'/' :: '*' :: r, n⟩ := misses_blank (by rintro _ _ ⟨⟩; decide)
    rcases ih with ⟨mid, close, chars, closes, later⟩ | ⟨mid, chars, misses, unclosed⟩
    · refine between_of_comment noBlank (.altFirst (reads_seq (reads_two '/' '*' r n) ?_)) later
      exact reads_seq (star_of_more chars) closes
    · -- the comment is not closed, so it is none
      rw [unclosed]
      refine between_of_misses noBlank (.altSecond ?_ (.seqFails (misses_text n (by simp))))
      exact .seqFailsLater (reads_two '/' '*' r n) (.seqFailsLater (star_of_more chars) misses)
  | case7 c d r n ink notLine notBlock =>
    refine between_of_misses (misses_blank ?_) (misses_comment ?_ ?_)
    · rintro _ _ ⟨⟩
      exact Bool.eq_false_iff.2 ink
    · rintro ⟨_, ⟨⟩⟩
      exact notBlock ⟨rfl, rfl⟩
    · rintro ⟨_, ⟨⟩⟩
      exact notLine ⟨rfl, rfl⟩
  | case8 n =>
    refine ⟨_, .moreNone (misses_lineChar_nil n), ?_⟩
    exact between_of_misses (misses_blank nofun) (misses_comment nofun nofun)
  | case9 c r n ih =>
    cases ends : endsLine c with
    | true =>
      rw [ends] at ih
      refine ⟨_, .moreNone (misses_lineChar ends r n), between_of_blank ?_ ih⟩
      simp only [endsLine, Bool.or_eq_true, beq_iff_eq] at ends
      rcases ends with rfl | rfl <;> decide
    | false =>
      rw [ends] at ih
      obtain ⟨mid, chars, later⟩ := ih
      exact ⟨mid, reads_more (reads_lineChar ends r n) chars, later⟩
  | case10 opened n => exact .inr ⟨_, .moreNone (misses_blockChar_nil n), misses_text n nofun, rfl⟩
  | case11 opened c n =>
    refine .inr ⟨⟨[], n.next c⟩, reads_more (reads_blockChar (by simp) n) (.moreNone (misses_blockChar_nil _)), ?_, rfl⟩
    exact misses_text _ nofun
  | case12 opened c d r n closed ih =>
    obtain ⟨rfl, rfl⟩ := closed
    exact .inl ⟨_, _, .moreNone (misses_blockChar r n), reads_two '*' '/' r n, ih⟩
  | case13 opened c d r n inside ih =>
    have char : Reads g blockChar ⟨c :: d :: r, n⟩ ⟨d :: r, n.next c⟩ :=
      reads_blockChar (by rintro ⟨_, ⟨⟩⟩; exact inside ⟨rfl, rfl⟩) n
    rcases ih with ⟨mid, close, chars, closes, later⟩ | ⟨mid, chars, misses, unclosed⟩
    · exact .inl ⟨mid, close, reads_more char chars, closes, later⟩
    · exact .inr ⟨mid, reads_more char chars, misses, unclosed⟩

/-- The pass over trivia goes as far as its rules match. -/
theorem reads_skip (g : Peg.Grammar ρ) (c : Cursor) : Reads g trivia c (skip c) := by
  obtain ⟨mid, blanks, comments⟩ := passes_scan (g := g) .between c.rest c.place
  exact reads_seq (star_of_more blanks) (star_of_more comments)

end FlowScript.Grammar.Trivia
