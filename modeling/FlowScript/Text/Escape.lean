import FlowScript.Text.Digits

/-!
# Escape sequences of string literals

What the body of a string literal stands for. A backslash begins an escape: one of the control characters
`n t r b f v 0`, `xHH`, `uHHHH`, `u` with digits in braces, a line feed (which disappears), or any other character,
which stands for itself. An escape by number that names no character gives back its digits.
-/

namespace FlowScript.Text.Escape

/-- The number that hexadecimal text stands for; a plus sign may stand before the digits. -/
def hexNumber? : List Char → Option Nat
  | [] => none
  | c :: r => if c = '+' then number? 16 r else number? 16 (c :: r)

/-- What an escape by number stands for: the character of that number, or the digits as written. -/
def ofHex (digits : List Char) : List Char :=
  match hexNumber? digits with
  | some n => if n.isValidChar then [Char.ofNat n] else digits
  | none => digits

/-- What the characters being read belong to. -/
inductive Place
  | plain
  /-- After a backslash. -/
  | escape
  /-- After `u`: digits follow, in braces or not. -/
  | unicode
  /-- Among digits, of which `more + 1` are still to come. -/
  | digits (more : Nat) (read : List Char)
  /-- Among digits in braces. -/
  | braced (read : List Char)

/-- What a single character after a backslash stands for. -/
def ofChar (c : Char) : List Char :=
  match c with
  | 'n' => ['\n']
  | 't' => ['\t']
  | 'r' => ['\r']
  | 'b' => ['\x08']
  | 'f' => ['\x0c']
  | 'v' => ['\x0b']
  | '0' => ['\x00']
  | '\n' => []
  | _ => [c]

/-- What the text stands for, read on from a place. -/
def decodeFrom : Place → List Char → List Char
  | .plain, [] | .escape, [] | .unicode, [] => []
  | .digits _ read, [] | .braced read, [] => ofHex read
  | .plain, c :: r => if c = '\\' then decodeFrom .escape r else c :: decodeFrom .plain r
  | .escape, c :: r =>
    if c = 'x' then decodeFrom (.digits 1 []) r
    else if c = 'u' then decodeFrom .unicode r
    else ofChar c ++ decodeFrom .plain r
  | .unicode, c :: r => if c = '\x7b' then decodeFrom (.braced []) r else decodeFrom (.digits 2 [c]) r
  | .digits 0 read, c :: r => ofHex (read ++ [c]) ++ decodeFrom .plain r
  | .digits (more + 1) read, c :: r => decodeFrom (.digits more (read ++ [c])) r
  | .braced read, c :: r =>
    if c = '\x7d' then ofHex read ++ decodeFrom .plain r else decodeFrom (.braced (read ++ [c])) r

/-- What the body of a string literal stands for. -/
def decode (body : List Char) : List Char :=
  decodeFrom .plain body

end FlowScript.Text.Escape
