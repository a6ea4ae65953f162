import FlowScript.Json.Record

/-!
# Options of descriptions
-/

namespace FlowScript

/-- Widths of the code that descriptions quote. -/
structure ExplainOptions where
  /-- Code as wide as this is not quoted any more. -/
  inlineCodeWidth : Nat
  /-- Returned values are cut to this width. -/
  returnValueWidth : Nat
deriving Repr, DecidableEq

namespace ExplainOptions

/-- The options that hold where nothing else is said. -/
def standard : ExplainOptions where
  inlineCodeWidth := 60
  returnValueWidth := 80

instance : Inhabited ExplainOptions := ⟨standard⟩

def toJson (o : ExplainOptions) : Json :=
  .obj [("inline_code_max_len", .nat o.inlineCodeWidth), ("return_value_max_len", .nat o.returnValueWidth)]

/-- The members of options. -/
def record : Json.Record := ⟨[], ["inline_code_max_len", "return_value_max_len"]⟩

/-- Reads options; what is missing has its standard value. -/
def ofJson? (v : Json) : Option ExplainOptions := do
  let v ← v.record? record
  return {
    inlineCodeWidth := ← v.default? "inline_code_max_len" Json.size? standard.inlineCodeWidth
    returnValueWidth := ← v.default? "return_value_max_len" Json.size? standard.returnValueWidth }

end ExplainOptions
end FlowScript
