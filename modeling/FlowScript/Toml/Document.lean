import FlowScript.Toml.Node
import FlowScript.Toml.Scalar
import FlowScript.Toml.Text

/-!
# TOML documents

A document is a list of lines: headers of tables, keys with values, comments. Reading one gives its table, or nothing
when it is malformed.
-/

namespace FlowScript.Toml

/-- A key and the tables on the way to it. -/
structure KeyPath where
  path : List String
  key : String

/-- How many parts a key may have, and how many arrays and inline tables may lie inside one another. -/
def maxNesting : Nat := 79

/-! ## Keys -/

/-- Whether a character may stand in a key without quotes. -/
def isBareKeyChar (c : Char) : Bool := c.isAlphanum || c = '_' || c = '-'

/-- Reads a part of a key. -/
def keyPart? (cs : List Char) : Option (String × List Char) :=
  match cs with
  | [] => none
  | c :: r =>
    if c = '\x22' then basicFrom? [] cs.length r
    else if c = '\x27' then literal? r
    else
      let (bare, rest) := cs.span isBareKeyChar
      if bare.isEmpty then none else some (String.ofList bare, rest)

/-- Reads the parts of a key with dots between them, and the spaces around them. -/
def keyParts? : (parts : Nat) → Reader (List String)
  | 0, _ => none
  | n + 1, cs =>
    (keyPart? (skipSpaces cs)).bind fun (part, rest) =>
      match skipSpaces rest with
      | [] => some ([part], [])
      | c :: r =>
        if c = '.' then (keyParts? n r).map fun (parts, rest) => (part :: parts, rest)
        else some ([part], c :: r)

/-- Reads a key. -/
def key? (cs : List Char) : Option (KeyPath × List Char) :=
  (keyParts? maxNesting cs).bind fun (parts, rest) => parts.getLast?.map fun key => (⟨parts.dropLast, key⟩, rest)

/-! ## Values -/

mutual

/-- Reads a value. No two steps inwards go without taking a character, so twice the length of the text bounds the
    fuel; `levels` more arrays and inline tables may lie inside one another. -/
def value? (fuel levels : Nat) (cs : List Char) : Option (Value × List Char) :=
  match fuel with
  | 0 => none
  | fuel + 1 =>
    match cs with
    | [] => none
    | c :: r =>
      if c = '\x22' || c = '\x27' then (string? cs).map fun (text, rest) => (.str text, rest)
      else if c = '[' then
        match levels with
        | 0 => none
        | levels + 1 => (items? fuel levels (skipBlank true r.length r)).map fun (items, rest) => (.array items, rest)
      else if c = '\x7b' then
        match levels with
        | 0 => none
        | levels + 1 =>
          match skipSpaces r with
          | [] => none
          | d :: s =>
            if d = '\x7d' then some (.table [], s)
            else (members? fuel levels [] (d :: s)).map fun (entries, rest) => (.table (tableOf entries), rest)
      else scalar? cs

/-- Reads the items of an array up to its closing bracket. -/
def items? (fuel levels : Nat) (cs : List Char) : Option (List Value × List Char) :=
  match fuel with
  | 0 => none
  | fuel + 1 =>
    match cs with
    | [] => none
    | c :: r =>
      if c = ']' then some ([], r)
      else
        (value? fuel levels cs).bind fun (item, rest) =>
          match skipBlank true rest.length rest with
          | [] => none
          | d :: s =>
            if d = ']' then some ([item], s)
            else if d = ',' then
              (items? fuel levels (skipBlank true s.length s)).map fun (items, rest) => (item :: items, rest)
            else none

/-- Reads the members of an inline table up to its closing brace, after those already read. -/
def members? (fuel levels : Nat) (entries : Entries) (cs : List Char) : Option (Entries × List Char) :=
  match fuel with
  | 0 => none
  | fuel + 1 =>
    (key? cs).bind fun (name, rest) =>
      match rest with
      | [] => none
      | c :: r =>
        if c = '=' then
          (value? fuel levels (skipSpaces r)).bind fun (v, rest) =>
            (entries.bindDotted? v name.path name.key).bind fun entries =>
              match skipSpaces rest with
              | [] => none
              | d :: s =>
                if d = '\x7d' then some (entries, s)
                else if d = ',' then members? fuel levels entries s
                else none
        else none

end

/-! ## Lines -/

/-- What a line does. -/
inductive Line
  | blank
  | header (name : KeyPath)
  /-- A header of one of several tables. -/
  | nextHeader (name : KeyPath)
  | binding (name : KeyPath) (v : Value)

/-- Reads a header after its first bracket. -/
def header? (cs : List Char) : Option (Line × List Char) :=
  match cs with
  | '[' :: r => (key? r).bind fun (name, rest) =>
    if "]]".toList.isPrefixOf rest then some (.nextHeader name, rest.drop 2) else none
  | r => (key? r).bind fun (name, rest) =>
    if rest.head? = some ']' then some (.header name, rest.tail) else none

/-- Reads a key with its value. -/
def binding? (cs : List Char) : Option (Line × List Char) :=
  (key? cs).bind fun (name, rest) =>
    match rest with
    | [] => none
    | c :: r =>
      if c = '=' then
        (value? (2 * cs.length + 2) maxNesting (skipSpaces r)).map fun (v, rest) => (.binding name v, rest)
      else none

/-- Reads a line without its end. -/
def line? (cs : List Char) : Option (Line × List Char) :=
  match skipSpaces cs with
  | [] => some (.blank, [])
  | c :: r =>
    if c = '#' || c = '\n' || c = '\r' then some (.blank, c :: r)
    else if c = '[' then header? r
    else binding? (c :: r)

/-- Reads the lines of a document into its entries; `table` is the path of the last header. -/
def linesFrom? (table : List String) (entries : Entries) : (rounds : Nat) → List Char → Option Entries
  | _, [] => some entries
  | 0, _ :: _ => none
  | n + 1, c :: r => do
    let (line, rest) ← line? (c :: r)
    let rest ← lineEnd? rest
    match line with
    | .blank => linesFrom? table entries n rest
    | .header name => linesFrom? (name.path ++ [name.key]) (← entries.openTable? name.path name.key) n rest
    | .nextHeader name => linesFrom? (name.path ++ [name.key]) (← entries.openNext? name.path name.key) n rest
    | .binding name v => linesFrom? table (← entries.bindIn? table name.path name.key v) n rest

/-- The table of a document; a byte order mark may stand before it. -/
def parse? (text : String) : Option Table :=
  let cs := text.toList
  let cs := if cs.head? = some '\ufeff' then cs.tail else cs
  (linesFrom? [] [] cs.length cs).map tableOf

end FlowScript.Toml
