import FlowScript.Printer.Render
import FlowScript.Text.Case
import FlowScript.Text.Search

/-!
# Important statements

A statement is important if its code mentions an important keyword, in capital or small letters.
-/

namespace FlowScript

/-- Words whose mention makes code important. -/
def importantKeywords : List String :=
  ["page", "navigate", "goto", "access", "plugin", "click", "type", "select", "submit", "wait"]

/-- Whether code mentions an important keyword. -/
def isImportantCode (code : String) : Bool := Text.containsAny (Text.lower code) importantKeywords

/-- Whether the statement's code mentions an important keyword. -/
def Stmt.isImportant (s : Stmt) : Bool := isImportantCode s.renderCompact

end FlowScript
