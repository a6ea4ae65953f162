import FlowScript.Number.Double
import FlowScript.Text.Case
import FlowScript.Text.Digits

/-!
# Layers of settings

Settings come in layers, each laid over the ones before it. A table extends what is below it entry by entry, any other
value replaces it. Names count as equal if their lower cases are.
-/

namespace FlowScript

/-- What a layer says about a name. -/
inductive Setting
  /-- Nothing, as where a list was filled up. -/
  | missing
  | bool (value : Bool)
  | int (value : Int)
  | decimal (value : Double)
  | str (text : String)
  | list (items : List Setting)
  | table (entries : List (String × Setting))
deriving Inhabited

namespace Setting

/-- The entries of a table; any other value has none. -/
def entries : Setting → List (String × Setting)
  | table entries => entries
  | _ => []

/-- The items of a list; any other value has none. -/
def items : Setting → List Setting
  | list items => items
  | _ => []

/-- Entries with the one of a name changed or, if there is none, added. -/
def changeEntry (name : String) (change : Option Setting → Setting) :
    List (String × Setting) → List (String × Setting)
  | [] => [(name, change none)]
  | (n, v) :: es => if n = name then (n, change (some v)) :: es else (n, v) :: changeEntry name change es

/-- The table that comes of a value when the entry of a name is changed. -/
def change (name : String) (how : Option Setting → Setting) (below : Setting) : Setting :=
  .table (changeEntry (Text.lower name) how below.entries)

mutual

/-- A value laid over the one below it. A table without entries leaves what is below. -/
def cover : Setting → Option Setting → Setting
  | table entries, below => coverEntries entries (below.getD (.table []))
  | v, _ => v

/-- Entries laid over a value, which is a table from then on. -/
def coverEntries : List (String × Setting) → Setting → Setting
  | [], below => below
  | (name, v) :: es, below => coverEntries es (below.change name fun old => cover v old)

end

/-! ## Paths -/

/-- A step from a value to one inside it. -/
inductive Step
  | name (name : String)
  /-- A place in a list; negative places count from its end. -/
  | place (index : Int)
deriving Repr, DecidableEq

/-- A list with the item of a place changed; places beyond the end are filled up. -/
def changeItem (index : Int) (how : Setting → Setting) (items : List Setting) : List Setting :=
  let n := if index < 0 then items.length - index.natAbs else index.toNat
  let filled := items ++ List.replicate (n + 1 - items.length) .missing
  filled.modify n how

/-- Lays a value over the one at the end of a path. Values on the way become tables or lists as the path needs. -/
def put (v : Setting) : (path : List Step) → (below : Setting) → Setting
  | [], below => cover v (some below)
  | [.name name], below => below.change name fun old => cover v old
  | .name name :: path, below => below.change name fun old => put v path (old.getD .missing)
  | [.place index], below => .list (changeItem index (fun _ => v) below.items)
  | .place index :: path, below => .list (changeItem index (put v path) below.items)

/-- Whether a character may stand in a name of a path. -/
def isNameChar (c : Char) : Bool := c.isAlphanum || c = ' ' || c = '_' || c = '-'

/-- Blanks that may stand around the number of a place. -/
def isPadding (c : Char) : Bool := c = ' ' || c = '\t'

/-- The number of a place, with a bracket after it. -/
def index? (cs : List Char) : Option (Int × List Char) :=
  let cs := cs.dropWhile isPadding
  let (negative, cs) := if cs.head? = some '-' then (true, cs.tail) else (false, cs)
  let (digits, rest) := cs.span Char.isDigit
  match Text.number? 10 digits, rest.dropWhile isPadding with
  | some n, ']' :: rest => if n < Nat.pow 2 63 then some (if negative then -(n : Int) else n, rest) else none
  | _, _ => none

/-- The steps after the first one. -/
def stepsFrom? : (rounds : Nat) → List Char → Option (List Step)
  | _, [] => some []
  | 0, _ => none
  | n + 1, c :: r =>
    if c = '.' then
      let (name, rest) := r.span isNameChar
      if name.isEmpty then none else (stepsFrom? n rest).map (.name (String.ofList name) :: ·)
    else if c = '[' then
      (index? r).bind fun (index, rest) => (stepsFrom? n rest).map (.place index :: ·)
    else none

/-- The path that a key stands for: names with dots between them, and places in brackets. A key of another form is a
    name as it is. -/
def pathOf (key : String) : List Step :=
  let (name, rest) := key.toList.span isNameChar
  match stepsFrom? rest.length rest with
  | some steps => if name.isEmpty then [.name key] else .name (String.ofList name) :: steps
  | none => [.name key]

/-- Lays a layer over the ones below it; its keys are paths. -/
def layer (entries : List (String × Setting)) (below : Setting) : Setting :=
  entries.foldl (fun below (key, v) => put v (pathOf key) below) below

/-! ## Reading values -/

/-- A number with a sign, if it fits into 64 bits. -/
def int64? (text : String) : Option Int :=
  let cs := text.toList
  let negative := cs.head? = some '-'
  let digits := if negative || cs.head? = some '+' then cs.tail else cs
  (Text.number? 10 digits).bind (Text.int64? negative)

/-- A natural number, if it fits into 64 bits. -/
def nat64? (text : String) : Option Nat :=
  let cs := text.toList
  let digits := if cs.head? = some '+' then cs.tail else cs
  (Text.number? 10 digits).filter (· < Nat.pow 2 64)

/-- The value that plain text stands for: a truth value or a number if it reads as one. -/
def ofText (text : String) : Setting :=
  let lower := Text.lower text
  if lower = "true" then .bool true
  else if lower = "false" then .bool false
  else
    match int64? text with
    | some n => .int n
    | none =>
      match Double.ofText? text with
      | some d => .decimal d
      | none => .str text

/-- A value as a size. -/
def size? : Setting → Option Nat
  | bool b => some b.toNat
  | int n => if 0 ≤ n then some n.toNat else none
  | decimal d => some (d.toNat (Nat.pow 2 64 - 1))
  | str text =>
    let lower := Text.lower text
    if ["true", "on", "yes"].contains lower then some 1
    else if ["false", "off", "no"].contains lower then some 0
    else nat64? text
  | missing | list _ | table _ => none

/-- A value as a truth value. -/
def bool? : Setting → Option Bool
  | bool b => some b
  | int n => some (n ≠ 0)
  | decimal d => some (!d.isZero)
  | str text =>
    let lower := Text.lower text
    if ["1", "true", "on", "yes"].contains lower then some true
    else if ["0", "false", "off", "no"].contains lower then some false
    else none
  | missing | list _ | table _ => none

/-- A value as text. -/
def text? : Setting → Option String
  | bool b => some (if b then "true" else "false")
  | int n => some (toString n)
  | decimal d => some d.text
  | str text => some text
  | missing | list _ | table _ => none

/-- A value that may be missing. -/
def optional? {α : Type} (read : Setting → Option α) : Setting → Option (Option α)
  | missing => some none
  | v => (read v).map some

/-- A record: the entries of a table, or a list with the values of the names in order. -/
def record? (names : List String) : Setting → Option (List (String × Setting))
  | table entries => some entries
  | list items => some (names.zip items)
  | _ => none

/-- A member of a record, with a default in case it is not there. -/
def member? {α : Type} (record : List (String × Setting)) (name : String) (read : Setting → Option α) (default : α) :
    Option α :=
  match record.lookup name with
  | none => some default
  | some v => read v

end Setting
end FlowScript
