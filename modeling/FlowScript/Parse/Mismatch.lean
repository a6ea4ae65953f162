import FlowScript.Grammar.Rule
import FlowScript.Peg.Match
import FlowScript.Source.Span

/-!
# Where the grammar did not match

A source that the grammar does not match is reported at the rightmost offset where a rule was tried in vain, with the
rules that were expected there, and a picture of the line.
-/

namespace FlowScript.Parse
open FlowScript.Grammar (Rule)

/-- A source that the grammar does not match: the offset it got to, the rules expected there, and those that matched
    though they must not. -/
structure Mismatch where
  source : List Char
  offset : Nat
  expected : List Rule
  unexpected : List Rule

namespace Mismatch

/-- The report of failed attempts; each rule is named once, in the order of the grammar. -/
def ofAttempts (source : List Char) (attempts : Peg.Attempts Rule) : Mismatch where
  source := source
  offset := attempts.offset
  expected := Rule.all.filter (attempts.expected.contains ·)
  unexpected := Rule.all.filter (attempts.unexpected.contains ·)

/-- Line and column of an offset, both counted from one. A line feed ends a line, alone or after a carriage return. -/
def lineColumnFrom (line column : Nat) : List Char → Nat → Nat × Nat
  | _, 0 => (line, column)
  | [], _ + 1 => (line, column)
  | [c], n + 1 =>
    if c = '\n' then (line + 1, 1) else lineColumnFrom line (column + 1) [] (n + 1 - c.utf8Size)
  | c :: d :: r, n + 1 =>
    if c = '\n' then lineColumnFrom (line + 1) 1 (d :: r) n
    else if c = '\r' ∧ d = '\n' then lineColumnFrom (line + 1) 1 r (n - 1)
    else lineColumnFrom line (column + 1) (d :: r) (n + 1 - c.utf8Size)

/-- Line and column of the mismatch, both counted from one. -/
def lineColumn (m : Mismatch) : Nat × Nat :=
  lineColumnFrom 1 1 m.source m.offset

/-- The span that marks the mismatch. -/
def span (m : Mismatch) : Span :=
  let (line, column) := m.lineColumn
  ⟨⟨m.offset, line - 1, column - 1⟩, ⟨m.offset, line - 1, column⟩⟩

/-- The text after the last line feed. -/
def afterLastLineFeed (cs : List Char) : List Char :=
  (cs.reverse.takeWhile (· != '\n')).reverse

/-- The text up to the first line feed, that included. -/
def throughLineFeed : List Char → List Char
  | [] => []
  | c :: r => if c = '\n' then [c] else c :: throughLineFeed r

/-- The line of the mismatch as it is shown: line ends are left out, or made visible when the mismatch is at one. -/
def shownLine (m : Mismatch) : List Char :=
  let before := (Text.takeBytes? m.source m.offset).getD []
  let after := (Text.dropBytes? m.source m.offset).getD []
  let line := afterLastLineFeed before ++ throughLineFeed after
  match after with
  | '\n' :: _ | '\r' :: _ => line.map fun c => if c = '\n' then '␊' else if c = '\r' then '␍' else c
  | _ => line.filter fun c => c != '\n' && c != '\r'

/-- Names as a list in a sentence. -/
def enumerate : List String → String
  | [] => ""
  | [a] => a
  | [a, b] => a ++ " or " ++ b
  | a :: b :: c :: rest => ", ".intercalate ((a :: b :: c :: rest).dropLast) ++ ", or " ++ ((c :: rest).getLastD c)

/-- What was expected and what was not. -/
def summary (m : Mismatch) : String :=
  let expected := enumerate (m.expected.map Rule.label)
  let unexpected := enumerate (m.unexpected.map Rule.label)
  match m.unexpected, m.expected with
  | [], [] => "unknown parsing error"
  | [], _ => "expected " ++ expected
  | _, [] => "unexpected " ++ unexpected
  | _, _ => "unexpected " ++ unexpected ++ "; expected " ++ expected

/-- The report: the place, a picture of the line with a mark under it, and the summary. -/
def message (m : Mismatch) : String :=
  let (line, column) := m.lineColumn
  let number := toString line
  let margin := String.ofList (List.replicate number.length ' ')
  let shown := m.shownLine
  let mark := (shown.take (column - 1)).map fun c => if c = '\t' then '\t' else ' '
  "\n".intercalate [
    margin ++ "--> " ++ number ++ ":" ++ toString column,
    margin ++ " |",
    number ++ " | " ++ String.ofList shown,
    margin ++ " | " ++ String.ofList mark ++ "^---",
    margin ++ " |",
    margin ++ " = " ++ m.summary]

end Mismatch
end FlowScript.Parse
