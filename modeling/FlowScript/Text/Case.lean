/-!
# Lower case

Code is searched for ASCII keywords without regard to case. Three kinds of characters have ASCII letters in their
lower case: the capital ASCII letters, the Kelvin sign and the dotted capital I. All others stand for themselves here,
which no search for ASCII text can tell from their full lower case.
-/

namespace FlowScript.Text

/-- The lower case of a character, where it has ASCII letters in it. -/
def lowerChar (c : Char) : List Char :=
  if 'A' ≤ c ∧ c ≤ 'Z' then [c.toLower]
  else if c = '\u212a' then ['k']
  else if c = '\u0130' then ['i', '\u0307']
  else [c]

/-- A text with its characters in lower case. -/
def lower (text : String) : String := String.ofList (text.toList.flatMap lowerChar)

end FlowScript.Text
