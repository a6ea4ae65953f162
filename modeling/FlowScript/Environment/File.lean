import FlowScript.Environment.Basic
import FlowScript.Text.Blank
import FlowScript.Unicode.Alphanumeric

/-!
# Files of environment variables

Such a file binds a variable on each line. A quoted value may go on over line ends, and a value may refer to variables
by `$name` or `$` and a name in braces. The first malformed line ends the reading; what was bound before it stays.
-/

namespace FlowScript.EnvFile

/-! ## Lines -/

/-- Where a character stands, as far as it decides where a line ends. -/
inductive LineState
  | plain
  | escaped
  | inStrong
  | inStrongEscaped
  | inWeak
  | inWeakEscaped
  | afterBlank
deriving Repr, DecidableEq

/-- What stands for itself between two words: quotes open, a backslash escapes. -/
def openingState (c : Char) : LineState :=
  if c = '\\' then .escaped
  else if c = '\x22' then .inWeak
  else if c = '\x27' then .inStrong
  else .plain

/-- The state after a character, unless a comment starts with it. -/
def LineState.next? (state : LineState) (c : Char) : Option LineState :=
  match state with
  | plain => some (if Text.isBlank c && c ≠ '\n' && c ≠ '\r' then .afterBlank else openingState c)
  | afterBlank => if c = '#' then none else some (openingState c)
  | escaped => some plain
  | inStrong => some (if c = '\\' then inStrongEscaped else if c = '\x27' then plain else inStrong)
  | inStrongEscaped => some inStrong
  | inWeak => some (if c = '\\' then inWeakEscaped else if c = '\x22' then plain else inWeak)
  | inWeakEscaped => some inWeak

/-- The part of a line before a comment in it, and the state at its end; the state at a comment is `plain`. -/
def scan (state : LineState) : List Char → List Char × LineState
  | [] => ([], state)
  | c :: r =>
    match state.next? c with
    | none => ([], .plain)
    | some next =>
      let (kept, last) := scan next r
      (c :: kept, last)

/-- The pieces of a text that end after a line feed; `line` is the piece being read. -/
def pieces (line : List Char) : List Char → List (List Char)
  | [] => if line.isEmpty then [] else [line]
  | c :: r => if c = '\n' then (line ++ [c]) :: pieces [] r else pieces (line ++ [c]) r

/-- Puts pieces together to lines; `held` is the start of a line that is still open. A line that is never closed is
    malformed and stands as nothing. -/
def lines (held : List Char) (state : LineState) : List (List Char) → List (Option (List Char))
  | [] => if state = .plain then [] else [none]
  | piece :: rest =>
    if (Text.trimStart (held ++ piece)).head? = some '#' then lines [] .plain rest
    else
      let (kept, last) := scan state piece
      if last = .plain then some (held ++ kept) :: lines [] .plain rest
      else lines (held ++ kept) last rest

/-! ## Values -/

/-- A piece of a value. -/
inductive Piece
  | char (c : Char)
  | reference (name : List Char)
deriving Repr, DecidableEq

/-- How a character of a value is read. -/
inductive Mode
  | text
  | escaped
  | strong
  /-- In the name of a variable; `braced` tells whether braces are around it. -/
  | name (read : List Char) (braced : Bool)
  /-- After the value, where only blanks and a comment may follow. -/
  | ended
deriving Repr, DecidableEq

/-- What a character after a backslash stands for. -/
def escape? (c : Char) : Option Char :=
  if c = 'n' then some '\n'
  else if ['\\', '\x27', '\x22', '$', ' '].contains c then some c
  else none

/-- The pieces of a value; `weak` tells whether double quotes are open. -/
def value? (weak : Bool) (mode : Mode) : List Char → Option (List Piece)
  | [] =>
    match mode with
    | .ended => some []
    | .strong => none
    | .name read braced => if braced || weak then none else some [.reference read]
    | .text | .escaped => if weak then none else some []
  | c :: r =>
    match mode with
    | .ended => if c = ' ' || c = '\t' then value? weak .ended r else if c = '#' then some [] else none
    | .escaped => (escape? c).bind fun d => (value? weak .text r).map (.char d :: ·)
    | .strong => if c = '\x27' then value? weak .text r else (value? weak .strong r).map (.char c :: ·)
    | .name read braced =>
      if Unicode.isAlphanumeric c then value? weak (.name (read ++ [c]) braced) r
      else if braced then
        if c = '\x7d' then (value? weak .text r).map (.reference read :: ·)
        else value? weak (.name (read ++ [c]) true) r
      else if c = '\x7b' && read.isEmpty then value? weak (.name [] true) r
      else if c = '$' then (value? weak (.name [] false) r).map (.reference read :: ·)
      else (value? weak .text r).map fun rest => .reference read :: .char c :: rest
    | .text =>
      if c = '$' then value? weak (.name [] false) r
      else if c = '\\' then value? weak .escaped r
      else if c = '\x22' then value? (!weak) .text r
      else if weak then (value? weak .text r).map (.char c :: ·)
      else if c = '\x27' then value? weak .strong r
      else if c = ' ' || c = '\t' then value? weak .ended r
      else (value? weak .text r).map (.char c :: ·)

/-- The text of a piece; a variable that is not set has none. -/
def Piece.text (vs : Variables) : Piece → List Char
  | char c => [c]
  | reference name => ((vs.get? (String.ofList name)).getD "").toList

/-! ## Bindings -/

/-- What a line says. -/
inductive Line
  | blank
  | binding (name : String) (value : List Piece)

/-- The name at the front of a text, and the rest after blanks. -/
def name? (cs : List Char) : Option (String × List Char) :=
  match cs with
  | [] => none
  | c :: _ =>
    if c.isAlpha || c = '_' then
      let (name, rest) := cs.span fun c => c.isAlphanum || c = '_' || c = '.'
      some (String.ofList name, Text.trimStart rest)
    else none

/-- What follows an equals sign and blanks. -/
def afterEquals? : List Char → Option (List Char)
  | [] => none
  | c :: r => if c = '=' then some (Text.trimStart r) else none

/-- Whether nothing but a comment is left. -/
def isOver (cs : List Char) : Bool := cs.isEmpty || cs.head? = some '#'

/-- Reads a line. The word `export` may stand before the name, and may be the name. -/
def line? (cs : List Char) : Option Line := do
  let cs := Text.trim cs
  if isOver cs then return .blank
  let (name, rest) ← name? cs
  let (name, rest) ←
    match afterEquals? rest with
    | some value => some (name, value)
    | none =>
      if name = "export" then (name? rest).bind fun (name, rest) => (afterEquals? rest).map fun value => (name, value)
      else none
  if isOver rest then return .binding name []
  return .binding name (← value? false .text rest)

/-- Sets what lines bind, up to the first malformed one. -/
def bindAll (vs : Variables) : List (Option (List Char)) → Variables
  | [] => vs
  | line :: rest =>
    match line.bind line? with
    | none => vs
    | some .blank => bindAll vs rest
    | some (.binding name value) => bindAll (vs.setIfUnset name (String.ofList (value.flatMap (·.text vs)))) rest

end EnvFile

/-- The variables together with those that a file binds; what is set already stays. -/
def Variables.withFile (vs : Variables) (text : String) : Variables :=
  let cs := text.toList
  let cs := if cs.head? = some '\ufeff' then cs.tail else cs
  EnvFile.bindAll vs (EnvFile.lines [] .plain (EnvFile.pieces [] cs))

end FlowScript
