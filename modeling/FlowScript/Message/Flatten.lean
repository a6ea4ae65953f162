import FlowScript.Message.Catalog
import FlowScript.Toml.Document

/-!
# Catalogs from TOML

The texts of a table and the tables inside it become the entries of a catalog; the names on the way to a text, with
dots between them, are its key.
-/

namespace FlowScript

/-- Why a catalog was not read. -/
inductive CatalogError
  /-- The document is malformed. -/
  | malformed
  /-- The value of a key is neither text nor a table. -/
  | notText (key : String)
deriving Repr, DecidableEq

def CatalogError.message : CatalogError → String
  | malformed => "invalid catalog"
  | notText key => "catalog entry \x60" ++ key ++ "\x60 is not a string"

namespace Catalog

/-- The key of a name in the table with a key; the outermost table has none. -/
def keyIn (table name : String) : String := if table.isEmpty then name else table ++ "." ++ name

mutual

/-- The entries of a value with a key. -/
def entriesOf (key : String) : Toml.Value → Except CatalogError (List (String × String))
  | .str text => .ok [(key, text)]
  | .table entries => entriesOfTable key entries
  | _ => .error (.notText key)

/-- The entries of a table with a key, in order; the first value that is neither text nor a table is an error. -/
def entriesOfTable (key : String) : List (String × Toml.Value) → Except CatalogError (List (String × String))
  | [] => .ok []
  | (name, v) :: rest =>
    match entriesOf (keyIn key name) v with
    | .error e => .error e
    | .ok first =>
      match entriesOfTable key rest with
      | .error e => .error e
      | .ok others => .ok (first ++ others)

end

/-- The catalog of a table. -/
def ofTable (table : Toml.Table) : Except CatalogError Catalog := (entriesOfTable "" table).map ofEntries

/-- The catalog of a TOML document. -/
def ofToml (text : String) : Except CatalogError Catalog :=
  match Toml.parse? text with
  | none => .error .malformed
  | some table => ofTable table

end Catalog
end FlowScript
