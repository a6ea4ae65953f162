import FlowScript.Toml.Value

/-!
# Tables under construction

A document states a table piece by piece: by headers, by dotted keys, or as a parent of one that is stated. How a table
has come about decides what may still be added to it.
-/

namespace FlowScript.Toml

/-- How a table has come about. -/
inductive Origin
  /-- Only as the parent of a table with a header. -/
  | implied
  /-- By dotted keys. -/
  | dotted
  /-- By a header. -/
  | stated
deriving Repr, DecidableEq

/-- What a key is bound to while a document is read. -/
inductive Node
  /-- A value, which is complete. -/
  | value (v : Value)
  | table (origin : Origin) (entries : List (String × Node))
  /-- Tables with the same header, the last one first. -/
  | tables (last : List (String × Node)) (others : List (List (String × Node)))

/-- The entries of a table under construction. -/
abbrev Entries := List (String × Node)

namespace Entries

/-- The entries with what a key is bound to, or is not bound to yet, replaced. -/
def update? (key : String) (change : Option Node → Option Node) : Entries → Option Entries
  | [] => (change none).map fun n => [(key, n)]
  | (k, n) :: es =>
    if k = key then (change (some n)).map fun n => (k, n) :: es
    else (update? key change es).map ((k, n) :: ·)

/-- Changes the table at the end of a path of headers; tables on the way come into being. -/
def within? (change : Entries → Option Entries) : (path : List String) → Entries → Option Entries
  | [], es => change es
  | key :: path, es => es.update? key fun
    | none => (within? change path []).map (.table .implied)
    | some (.table origin inner) => (within? change path inner).map (.table origin)
    | some (.tables last others) => (within? change path last).map (.tables · others)
    | some (.value _) => none

/-- Opens a table by a header. A table that was only implied may be opened once. -/
def openTable? (path : List String) (key : String) (es : Entries) : Option Entries :=
  es.within? (fun es => es.update? key fun
    | none => some (.table .stated [])
    | some (.table .implied inner) => some (.table .stated inner)
    | some _ => none) path

/-- Opens another table of those with the same header. -/
def openNext? (path : List String) (key : String) (es : Entries) : Option Entries :=
  es.within? (fun es => es.update? key fun
    | none => some (.tables [] [])
    | some (.tables last others) => some (.tables [] (last :: others))
    | some _ => none) path

/-- Binds a key that is not bound yet. -/
def bind? (key : String) (v : Value) (es : Entries) : Option Entries :=
  es.update? key fun
    | none => some (.value v)
    | some _ => none

/-- Binds a dotted key. The tables on the way come into being by dotted keys, or have done so before; only the last of
    them is looked at whether it was dotted. -/
def bindDotted? (v : Value) : (path : List String) → (key : String) → Entries → Option Entries
  | [], key, es => es.bind? key v
  | part :: path, key, es => es.update? part fun
    | none => (bindDotted? v path key []).map (.table .dotted)
    | some (.table .stated _) => none
    | some (.table .implied inner) =>
      if path.isEmpty then none else (bindDotted? v path key inner).map (.table .implied)
    | some (.table .dotted inner) => (bindDotted? v path key inner).map (.table .dotted)
    | some (.tables last others) =>
      if path.isEmpty then none else (bindDotted? v path key last).map (.tables · others)
    | some (.value _) => none

/-- Binds a dotted key in the table at the end of a path of headers. -/
def bindIn? (table : List String) (path : List String) (key : String) (v : Value) (es : Entries) : Option Entries :=
  es.within? (bindDotted? v path key) table

end Entries

/-- Puts an entry in its place among entries in the order of their keys. -/
def insertSorted (key : String) (v : Value) : Table → Table
  | [] => [(key, v)]
  | (k, w) :: es => if key < k then (key, v) :: (k, w) :: es else (k, w) :: insertSorted key v es

mutual

/-- What a node has become when the document is read. -/
def Node.toValue : Node → Value
  | .value v => v
  | .table _ entries => .table (tableOf entries)
  | .tables last others => .array (tablesOf others [.table (tableOf last)])

/-- The entries in the order of their keys. -/
def tableOf : List (String × Node) → Table
  | [] => []
  | (key, n) :: es => insertSorted key n.toValue (tableOf es)

/-- Tables before some others, the last of them first. -/
def tablesOf : List (List (String × Node)) → List Value → List Value
  | [], done => done
  | es :: rest, done => tablesOf rest (.table (tableOf es) :: done)

end

end FlowScript.Toml
