/-!
# TOML values
-/

namespace FlowScript.Toml

/-- A value of a TOML document. -/
inductive Value
  | str (text : String)
  | int (value : Int)
  /-- A float as written, without underscores. -/
  | float (literal : String)
  | bool (value : Bool)
  /-- A date, a time, or both, in its usual form. -/
  | dateTime (text : String)
  | array (items : List Value)
  | table (entries : List (String × Value))
deriving Inhabited

/-- A table: keys with their values, no key twice, in the order of the keys. -/
abbrev Table := List (String × Value)

end FlowScript.Toml
