import FlowScript.Text.Blank
import FlowScript.Text.Search

/-!
# Excerpts of code

Descriptions quote parts of a statement's code. The parts are found in the text, without regard to its structure.
-/

namespace FlowScript.Excerpt

/-- Whether a character opens or closes a string literal. -/
def isQuote (c : Char) : Bool := c = '\x22' || c = '\x27'

/-- The text before the first quote, if there is one. -/
def beforeQuote? : List Char → Option (List Char)
  | [] => none
  | c :: r => if isQuote c then some [] else (beforeQuote? r).map (c :: ·)

/-- The text between the first quote and the next, unless they stand side by side; then the second is taken for a
    first one. -/
def quoted? : List Char → Option (List Char)
  | [] => none
  | c :: r =>
    if isQuote c then
      match beforeQuote? r with
      | none => none
      | some [] => quoted? r
      | some text => some text
    else quoted? r

/-- The contents of the first string literal that is not empty. -/
def stringLiteral? (code : String) : Option String := (quoted? code.toList).map String.ofList

/-- The text after the first equals sign up to a semicolon, without the blanks around it. -/
def initialValue? (code : String) : Option String :=
  (Text.splitAtFirst? ['='] code.toList).bind fun (_, rest) =>
    let value := Text.trim (rest.takeWhile (· ≠ ';'))
    if value.isEmpty then none else some (String.ofList value)

/-- The text from the first `console.log(` to the last closing parenthesis. -/
def logArguments? (code : String) : Option String :=
  (Text.splitAtFirst? "console.log(".toList code.toList).bind fun (_, rest) =>
    (Text.beforeLast? ')' rest).map String.ofList

/-- Whether a character may stand in a plain ASCII name. -/
def isWordChar (c : Char) : Bool := c.isAlphanum || c = '_'

/-- The name before a `.push(` and the text from there to the last closing parenthesis; `word` is the name that ends
    where the text starts. -/
def pushedFrom? (word : List Char) : List Char → Option (List Char × List Char)
  | [] => none
  | c :: r =>
    if ".push(".toList.isPrefixOf (c :: r) && !word.isEmpty then
      (Text.beforeLast? ')' (r.drop 5)).map (word, ·)
    else pushedFrom? (if isWordChar c then word ++ [c] else []) r

/-- The list and the value of the first `.push(` that follows a name. -/
def pushed? (code : String) : Option (String × String) :=
  (pushedFrom? [] code.toList).map fun (list, value) => (String.ofList list, String.ofList value)

/-- The text without the characters at its end that are the given one. -/
def trimEndOf (last : Char) (text : List Char) : List Char := (text.reverse.dropWhile (· = last)).reverse

/-- The words of the returned expression, cut to a width with three dots. -/
def returnedValue? (code : String) (width : Nat) : Option String :=
  if "return".toList.isPrefixOf code.toList then
    let value := [' '].intercalate (Text.words (trimEndOf ';' (Text.trim (code.toList.drop 6))))
    if value.isEmpty then none
    else if value.length > width then some (String.ofList (value.take (width - 3) ++ "...".toList))
    else some (String.ofList value)
  else none

end FlowScript.Excerpt
