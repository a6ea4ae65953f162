import FlowScript.Color
import FlowScript.Text.Search

/-!
# Kinds of actions

What kind of action some code is depends on the keywords that occur in it, in capital and small letters as written.
-/

namespace FlowScript

/-- What a user does by an action. -/
inductive ActionKind
  | navigation | interaction | dataExtraction | controlFlow | ret | computation
deriving Repr, DecidableEq, Inhabited

/-- How much an action matters. -/
inductive Importance
  | high | medium | low
deriving Repr, DecidableEq, Inhabited

def Importance.name : Importance → String
  | high => "high"
  | medium => "medium"
  | low => "low"

namespace ActionKind

def name : ActionKind → String
  | navigation => "navigation"
  | interaction => "interaction"
  | dataExtraction => "data-extraction"
  | controlFlow => "control-flow"
  | ret => "return"
  | computation => "computation"

def icon : ActionKind → String
  | navigation => "navigation"
  | interaction => "interaction"
  | dataExtraction => "extraction"
  | controlFlow => "branch"
  | ret => "return"
  | computation => "compute"

/-- The key of the kind's title; the keys of its description and its fallback sentence start with it. -/
def titleKey : ActionKind → String
  | navigation => "actions.navigation"
  | interaction => "actions.interaction"
  | dataExtraction => "actions.data_extraction"
  | controlFlow => "actions.control_flow"
  | ret => "actions.return"
  | computation => "actions.computation"

def descriptionKey (k : ActionKind) : String := k.titleKey ++ "_description"

/-- The key of the sentence for an action without details. -/
def readableKey (k : ActionKind) : String := k.titleKey ++ "_readable"

/-- How much an action of the kind matters when it is a single statement that hits a keyword. -/
def standaloneImportance : ActionKind → Importance
  | dataExtraction => .medium
  | computation => .low
  | _ => .high

/-- The color of an action; one that matters little is gray. -/
def color (k : ActionKind) : Importance → Color
  | .low => .gray
  | _ =>
    match k with
    | navigation => .blue
    | interaction => .purple
    | dataExtraction => .green
    | controlFlow => .orange
    | ret => .pink
    | computation => .cyan

/-- The kinds that keywords tell, each with its keywords; the first that is hit wins. -/
def keywords : List (ActionKind × List String) := [
  (navigation, ["goto", "navigate", "open", "visit", "newPage", "createPage"]),
  (interaction, ["click", "type", "fill", "select", "submit", "press", "hover", "focus"]),
  (dataExtraction, ["textContent", "innerHTML", "getAttribute", "evaluate", "$$eval", "$eval", "title"])]

/-- The kind of some code, if it hits a keyword. -/
def ofCode? (code : String) : Option ActionKind :=
  (keywords.find? fun (_, words) => Text.containsAny code words).map (·.1)

end ActionKind
end FlowScript
