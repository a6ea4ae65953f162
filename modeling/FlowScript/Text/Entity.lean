/-!
# Text in markup

The characters that mean something in markup are written as entities.
-/

namespace FlowScript.Text.Entity

/-- How one character is written. -/
def ofChar (c : Char) : List Char :=
  if c = '&' then "&amp;".toList
  else if c = '<' then "&lt;".toList
  else if c = '>' then "&gt;".toList
  else if c = '\x22' then "&quot;".toList
  else if c = '\x27' then "&#039;".toList
  else [c]

/-- How a text is written. -/
def encode (text : String) : String :=
  String.ofList (text.toList.flatMap ofChar)

end FlowScript.Text.Entity
