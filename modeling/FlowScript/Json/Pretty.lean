import FlowScript.Json.Basic
import FlowScript.Text.Digits

/-!
# JSON as indented text

Two spaces for each level; an array or object without items stays on its line. Only quotes, backslashes and control
characters are escaped.
-/

namespace FlowScript.Json

/-- A character inside a string literal. -/
def escapeChar (c : Char) : List Char :=
  if c = '\x22' then ['\\', c]
  else if c = '\\' then ['\\', c]
  else if c = '\n' then ['\\', 'n']
  else if c = '\r' then ['\\', 'r']
  else if c = '\t' then ['\\', 't']
  else if c = '\x08' then ['\\', 'b']
  else if c = '\x0c' then ['\\', 'f']
  else if c < ' ' then '\\' :: 'u' :: Text.hexDigits c.toNat 4
  else [c]

/-- A string literal. -/
def quote (text : String) : String := "\x22" ++ String.ofList (text.toList.flatMap escapeChar) ++ "\x22"

/-- A line break and the indentation of a level. -/
def lineBreak (level : Nat) : String := "\n" ++ String.ofList (List.replicate (2 * level) ' ')

mutual

/-- The text of a value on a line of a level. -/
def prettyAt (level : Nat) : Json → String
  | null => "null"
  | bool b => if b then "true" else "false"
  | nat n => toString n
  | otherNumber text => text
  | str s => quote s
  | arr [] => "[]"
  | arr (v :: vs) =>
    "[" ++ lineBreak (level + 1) ++ v.prettyAt (level + 1) ++ prettyItems (level + 1) vs ++ lineBreak level ++ "]"
  | obj [] => "\x7b\x7d"
  | obj ((name, v) :: ms) =>
    "\x7b" ++ lineBreak (level + 1) ++ quote name ++ ": " ++ v.prettyAt (level + 1) ++ prettyMembers (level + 1) ms
      ++ lineBreak level ++ "\x7d"

/-- Items after the first. -/
def prettyItems (level : Nat) : List Json → String
  | [] => ""
  | v :: vs => "," ++ lineBreak level ++ v.prettyAt level ++ prettyItems level vs

/-- Members after the first. -/
def prettyMembers (level : Nat) : List (String × Json) → String
  | [] => ""
  | (name, v) :: ms => "," ++ lineBreak level ++ quote name ++ ": " ++ v.prettyAt level ++ prettyMembers level ms

end

/-- The text of a value. -/
def pretty (v : Json) : String := v.prettyAt 0

end FlowScript.Json
