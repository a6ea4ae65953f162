import FlowScript.Json.Basic

/-!
# Colors
-/

namespace FlowScript

/-- The colors in which the views show their items. -/
inductive Color
  | purple | green | teal | orange | cyan | amber | blue | red | pink | gray
deriving Repr, DecidableEq, Inhabited

namespace Color

def name : Color → String
  | purple => "purple"
  | green => "green"
  | teal => "teal"
  | orange => "orange"
  | cyan => "cyan"
  | amber => "amber"
  | blue => "blue"
  | red => "red"
  | pink => "pink"
  | gray => "gray"

def toJson (c : Color) : Json := .str c.name

end Color
end FlowScript
