import FlowScript.Actions.Kind

/-!
# Actions
-/

namespace FlowScript

/-- What a user does by some statements that follow one another. -/
structure Action where
  kind : ActionKind
  title : String
  description : String
  /-- The whole action in one line. -/
  readable : String
  /-- The places of the statements in the list, in order. -/
  statements : List Nat
  importance : Importance
  names : Option (List String)
  /-- What the statements do, line by line. -/
  details : List String
deriving Repr, DecidableEq, Inhabited

namespace Action

def icon (a : Action) : String := a.kind.icon

def color (a : Action) : Color := a.kind.color a.importance

/-- The action with its statements further on in the list. -/
def shift (offset : Nat) (a : Action) : Action := { a with statements := a.statements.map (offset + ·) }

/-! ## Output -/

def toJson (a : Action) : Json :=
  .obj ([("type", .str a.kind.name), ("title", .str a.title), ("description", .str a.description),
      ("human_readable_text", .str a.readable), ("statements", .arr (a.statements.map .nat)),
      ("importance", .str a.importance.name)]
    ++ Json.memberOf "variables" (fun names => .arr (names.map .str)) a.names
    ++ [("details", .arr (a.details.map .str)), ("icon", .str a.icon), ("color", a.color.toJson)])

/-- The lines of an action with a number. -/
def lines (a : Action) (number : Nat) : List String :=
  (toString number ++ ". [" ++ a.icon ++ "] " ++ a.title ++ " (" ++ a.kind.name ++ ", " ++ a.importance.name ++ ")")
    :: ("   " ++ a.description)
    :: (match a.names with
        | none => []
        | some names => ["   variables: " ++ ", ".intercalate names])
    ++ a.details.map ("   " ++ ·)

end Action
end FlowScript
