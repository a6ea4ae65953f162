import FlowScript.Source.Span

/-!
# How deep a source nests

Before a source is read by the grammar, a plain pass over its tokens bounds its nesting. The weight at a point is the
number of open brackets plus the bracketless nesting (`if`, `else`, loops, `?`, `=>`) still open at each bracket level.
Bracketless nesting ends with the statement: at a `;`, after a closing `\x7d` or at a line break, unless the next word
continues it. Comments and the contents of quotes do not count.

The pass is split in two: `Token.scan` reads the tokens, `State.step` accounts for one of them.
-/

namespace FlowScript.Nesting

/-- The weight that no point of a source may exceed. -/
def limit : Nat := 128

/-- What the accounting tells apart. -/
inductive TokenKind
  | word (chars : List Char)
  | opening
  /-- A closing bracket; `brace` when it is a curly one. -/
  | closing (brace : Bool)
  | semicolon | question | arrow | lineBreak
  | other
deriving Repr, DecidableEq

/-- A token and the offsets it lies between. -/
structure Token where
  kind : TokenKind
  start : Nat
  stop : Nat
deriving Repr, DecidableEq

namespace Token

/-- Characters of words. Everything beyond ASCII counts as one. -/
def isWordChar (c : Char) : Bool :=
  c.isAlphanum || c == '_' || c == '$' || 0x80 ≤ c.toNat

/-- What the characters being read belong to. -/
inductive Place
  | code | word | lineComment | blockComment
  | quote (mark : Char)
  /-- One character is passed over before the place goes on. -/
  | passing (after : Place)

/-- The token that a character of code begins, which is no word, blank or comment, and whether it takes the next
    character too. -/
def ofChar (c : Char) (rest : List Char) : TokenKind × Bool :=
  match c with
  | '(' | '[' | '\x7b' => (.opening, false)
  | ')' | ']' => (.closing false, false)
  | '\x7d' => (.closing true, false)
  | ';' => (.semicolon, false)
  | '?' =>
    match rest with
    | '?' :: _ => (.other, true)
    | '.' :: d :: _ => if d.isDigit then (.question, false) else (.other, true)
    | ['.'] => (.other, true)
    | _ => (.question, false)
  | '=' => if rest.head? = some '>' then (.arrow, true) else (.other, false)
  | _ => (.other, false)

/-- The tokens from a character of code that is no part of a word; `after` gives the tokens from the next character
    on, when it belongs to a place and has an offset. -/
def scanCode (c : Char) (r : List Char) (n : Nat) (after : Place → Nat → List Token) : List Token :=
  if c = '\n' then ⟨.lineBreak, n, n + 1⟩ :: after .code (n + 1)
  else if c = ' ' ∨ c = '\t' ∨ c = '\r' then after .code (n + 1)
  else if c = '/' ∧ r.head? = some '/' then after .lineComment (n + 1)
  else if c = '/' ∧ r.head? = some '*' then after (.passing .blockComment) (n + 1)
  else if c = '\x22' ∨ c = '\x27' ∨ c = '\x60' then ⟨.other, n, n + 1⟩ :: after (.quote c) (n + 1)
  else
    match ofChar c r with
    | (kind, false) => ⟨kind, n, n + 1⟩ :: after .code (n + 1)
    | (kind, true) => ⟨kind, n, n + 2⟩ :: after (.passing .code) (n + 1)

/-- The tokens of a text that starts at an offset. -/
def scan : Place → List Char → Nat → List Token
  | _, [], _ => []
  | .passing after, c :: r, n => scan after r (n + c.utf8Size)
  | .lineComment, c :: r, n =>
    if c = '\n' then ⟨.lineBreak, n, n + 1⟩ :: scan .code r (n + 1) else scan .lineComment r (n + c.utf8Size)
  | .blockComment, c :: r, n =>
    if c = '*' ∧ r.head? = some '/' then scan (.passing .code) r (n + 1) else scan .blockComment r (n + c.utf8Size)
  | .quote mark, c :: r, n =>
    if c = mark then scan .code r (n + c.utf8Size)
    else if c = '\\' then scan (.passing (.quote mark)) r (n + 1)
    else scan (.quote mark) r (n + c.utf8Size)
  | .word, c :: r, n =>
    if isWordChar c then scan .word r (n + c.utf8Size) else scanCode c r n fun place m => scan place r m
  | .code, c :: r, n =>
    if isWordChar c then
      let word := c :: r.takeWhile isWordChar
      ⟨.word word, n, n + Text.byteLength word⟩ :: scan .word r (n + c.utf8Size)
    else scanCode c r n fun place m => scan place r m
termination_by structural _ cs _ => cs

end Token

/-- Where a statement may have ended; the next word decides. -/
inductive Boundary
  | none
  /-- After a `;` or a closing `\x7d`. -/
  | statement
  | line
deriving Repr, DecidableEq

/-- What is open at a point. -/
structure State where
  /-- The bracketless nesting outside each open bracket, innermost first. -/
  levels : List Nat
  /-- The bracketless nesting inside the innermost bracket. -/
  chain : Nat
  boundary : Boundary
deriving Repr, DecidableEq

/-- The words whose statement may stand without a bracket. -/
def chainWords : List (List Char) := ["if", "else", "for", "while", "do"].map String.toList

/-- The words that continue the statement before them. -/
def continuationWords : List (List Char) := ["else", "catch", "finally", "while"].map String.toList

namespace State

/-- Nothing is open. -/
def start : State := ⟨[], 0, .none⟩

/-- Open brackets and bracketless nesting together. -/
def weight (s : State) : Nat :=
  s.levels.length + s.levels.foldr (· + ·) 0 + s.chain

/-- Whether a word ends the bracketless nesting before it. -/
def endsBefore (boundary : Boundary) (word : List Char) : Bool :=
  match boundary with
  | .none => false
  | .statement => !continuationWords.contains word
  | .line => !continuationWords.contains word && !chainWords.contains word

/-- What is open after one more token. -/
def step (s : State) : TokenKind → State
  | .word chars =>
    let chain := if endsBefore s.boundary chars then 0 else s.chain
    { s with chain := if chainWords.contains chars then chain + 1 else chain, boundary := .none }
  | .opening => ⟨s.chain :: s.levels, 0, .none⟩
  | .closing brace =>
    let boundary := if brace then .statement else .none
    match s.levels with
    | [] => { s with boundary }
    | outer :: levels => ⟨levels, outer, boundary⟩
  | .semicolon => { s with boundary := .statement }
  | .question | .arrow => { s with chain := s.chain + 1, boundary := .none }
  | .lineBreak => { s with boundary := if s.boundary = .none then .line else s.boundary }
  | .other => { s with boundary := .none }

end State

/-- The first token that brings the weight above the limit. -/
def tooDeepFrom : State → List Token → Option Token
  | _, [] => none
  | s, token :: tokens =>
    let s := s.step token.kind
    if s.weight > limit then some token else tooDeepFrom s tokens

/-- The tokens of a source. -/
def tokens (source : List Char) : List Token := Token.scan .code source 0

/-- The first token at which a source nests too deep. -/
def tooDeep? (source : List Char) : Option Token := tooDeepFrom .start (tokens source)

end FlowScript.Nesting
