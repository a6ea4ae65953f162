import FlowScript.Text.Digits

/-!
# Strings, blanks and comments of TOML

A reader takes text from the front of its input and gives back what it has read and what remains, or nothing when the
input is not of its form.
-/

namespace FlowScript.Toml

/-- Reads something from the front of a text. -/
abbrev Reader (α : Type) := List Char → Option (α × List Char)

/-! ## Blanks and comments -/

def isSpace (c : Char) : Bool := c = ' ' || c = '\t'

/-- Whether a character may stand in a comment: no control character but the tab. -/
def isPlain (c : Char) : Bool := c = '\t' || (' ' ≤ c && c ≠ '\x7f')

def skipSpaces (cs : List Char) : List Char := cs.dropWhile isSpace

/-- What follows a line break, if the text starts with one. -/
def afterBreak? : List Char → Option (List Char)
  | [] => none
  | c :: r =>
    if c = '\n' then some r
    else if c = '\r' then
      match r with
      | [] => none
      | d :: s => if d = '\n' then some s else none
    else none

/-- The text without a comment at its front. -/
def skipComment : List Char → List Char
  | [] => []
  | c :: r => if c = '#' then r.dropWhile isPlain else c :: r

/-- What follows the rest of a line on which nothing is left but spaces and a comment. -/
def lineEnd? (cs : List Char) : Option (List Char) :=
  match skipComment (skipSpaces cs) with
  | [] => some []
  | rest => afterBreak? rest

/-- The text without the spaces and line breaks at its front, and with `comments` without comments. Every round takes a
    character, so the length of the text bounds the rounds. -/
def skipBlank (comments : Bool) : (rounds : Nat) → List Char → List Char
  | 0, cs => cs
  | n + 1, cs =>
    let rest := skipSpaces cs
    let rest := if comments then skipComment rest else rest
    match afterBreak? rest with
    | some rest => skipBlank comments n rest
    | none => rest

/-! ## Strings -/

/-- The character of a number in hexadecimal digits. -/
def charOfHex? (digits : List Char) : Option Char :=
  (Text.number? 16 digits).bind fun n => if n.isValidChar then some (Char.ofNat n) else none

/-- What stands after a backslash. -/
def escape? : Reader Char
  | [] => none
  | c :: r =>
    if c = 'u' then (if r.length < 4 then none else (charOfHex? (r.take 4)).map (·, r.drop 4))
    else if c = 'U' then (if r.length < 8 then none else (charOfHex? (r.take 8)).map (·, r.drop 8))
    else
      let single : Option Char :=
        if c = 'b' then some '\x08' else if c = 't' then some '\t' else if c = 'n' then some '\n'
        else if c = 'f' then some '\x0c' else if c = 'r' then some '\r' else if c = '\x22' then some c
        else if c = '\\' then some c else none
      single.map (·, r)

/-- Text after a backslash at the end of a line, without all blanks up to the next text. -/
def afterFoldedBreak? (cs : List Char) : Option (List Char) :=
  (afterBreak? (skipSpaces cs)).map fun rest => skipBlank false rest.length rest

/-- Reads a string on one line up to its closing quote; `text` is the text so far, last character first. -/
def basicFrom? (text : List Char) : (rounds : Nat) → Reader String
  | 0, _ => none
  | _ + 1, [] => none
  | n + 1, c :: r =>
    if c = '\x22' then some (String.ofList text.reverse, r)
    else if c = '\\' then (escape? r).bind fun (d, rest) => basicFrom? (d :: text) n rest
    else if isPlain c then basicFrom? (c :: text) n r
    else none

/-- Reads a string without escapes on one line up to its closing quote. -/
def literal? (cs : List Char) : Option (String × List Char) :=
  match cs.span fun c => isPlain c && c ≠ '\x27' with
  | (text, c :: rest) => if c = '\x27' then some (String.ofList text, rest) else none
  | (_, []) => none

/-- The quotes at the front of a text, five at most, and the rest. Three of them close a string of several lines; those
    before are part of it. -/
def closing? (quote : Char) (cs : List Char) : Nat × List Char :=
  let count := min 5 (cs.takeWhile (· = quote)).length
  (count, cs.drop count)

/-- Reads a string of several lines up to its closing quotes; `text` is the text so far, last character first. With
    `escapes` a backslash starts an escape or folds the line. -/
def multilineFrom? (quote : Char) (escapes : Bool) (text : List Char) : (rounds : Nat) → Reader String
  | 0, _ => none
  | _ + 1, [] => none
  | n + 1, c :: r =>
    if c = quote then
      match closing? quote (c :: r) with
      | (count, rest) =>
        if count < 3 then multilineFrom? quote escapes (List.replicate count quote ++ text) n rest
        else some (String.ofList (List.replicate (count - 3) quote ++ text).reverse, rest)
    else if escapes && c = '\\' then
      match afterFoldedBreak? r with
      | some rest => multilineFrom? quote escapes text n rest
      | none => (escape? r).bind fun (d, rest) => multilineFrom? quote escapes (d :: text) n rest
    else
      match afterBreak? (c :: r) with
      | some rest => multilineFrom? quote escapes ('\n' :: text) n rest
      | none => if isPlain c then multilineFrom? quote escapes (c :: text) n r else none

/-- The text without a line break at its front. -/
def skipBreak (cs : List Char) : List Char := (afterBreak? cs).getD cs

/-- Reads a string of any kind. -/
def string? (cs : List Char) : Option (String × List Char) :=
  let triple (quote : Char) : Bool := [quote, quote, quote].isPrefixOf cs
  if triple '\x22' then multilineFrom? '\x22' true [] cs.length (skipBreak (cs.drop 3))
  else if triple '\x27' then multilineFrom? '\x27' false [] cs.length (skipBreak (cs.drop 3))
  else
    match cs with
    | [] => none
    | c :: r => if c = '\x22' then basicFrom? [] cs.length r else if c = '\x27' then literal? r else none

end FlowScript.Toml
