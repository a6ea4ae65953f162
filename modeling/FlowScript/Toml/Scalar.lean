import FlowScript.Number.Double
import FlowScript.Toml.DateTime
import FlowScript.Toml.Value

/-!
# Numbers, truth values, dates and times of TOML

Each is a word: a run of letters, digits and the signs that may stand in one. Only between a date and a time may
stand a space.
-/

namespace FlowScript.Toml

/-- Whether a character may stand in a word. -/
def isWordChar (c : Char) : Bool := c.isAlphanum || ['+', '-', '_', '.', ':'].contains c

/-- The word without a sign at its front, and whether that is a minus. -/
def splitSign : List Char → Bool × List Char
  | [] => (false, [])
  | c :: r => if c = '-' then (true, r) else if c = '+' then (false, r) else (false, c :: r)

/-- The digits of a decimal number, without underscores; a zero stands alone at the front. -/
def wholeDigits? (cs : List Char) : Option (List Char) :=
  (Text.joinDigits? 10 cs).filter fun ds => ds.head? ≠ some '0' || ds.length = 1

/-- The base that a letter after a zero stands for. -/
def baseOf? (c : Char) : Option Nat :=
  if c = 'x' then some 16 else if c = 'o' then some 8 else if c = 'b' then some 2 else none

/-- The integer of a sign and of digits in a base. -/
def intOf? (negative : Bool) (base : Nat) (digits : List Char) : Option Value :=
  (Text.number? base digits).bind fun n => (Text.int64? negative n).map .int

/-- An integer in a base other than ten, which has no sign. -/
def basedInt? : List Char → Option Value
  | '0' :: c :: ds =>
    (baseOf? c).bind fun base => (Text.joinDigits? base ds).bind (intOf? false base)
  | _ => none

/-- A decimal integer. -/
def decimalInt? (cs : List Char) : Option Value :=
  let (negative, magnitude) := splitSign cs
  (wholeDigits? magnitude).bind (intOf? negative 10)

/-- The text before the first character of some, and what starts with it. -/
def splitBefore (marks : List Char) (cs : List Char) : List Char × List Char := cs.span fun c => !marks.contains c

/-- The exponent of a float, if it has one, in the form `e` with sign and digits. -/
def exponent? : List Char → Option (List Char)
  | [] => some []
  | _ :: r =>
    let (negative, ds) := splitSign r
    (Text.joinDigits? 10 ds).map fun ds => 'e' :: (if negative then ['-'] else []) ++ ds

/-- A float without underscores. -/
def floatText? (cs : List Char) : Option (List Char) := do
  let (negative, magnitude) := splitSign cs
  let sign := if negative then ['-'] else []
  if magnitude = "inf".toList || magnitude = "nan".toList then return sign ++ magnitude
  let (whole, rest) := splitBefore ['.', 'e', 'E'] magnitude
  let whole ← wholeDigits? whole
  match rest with
  | [] => none
  | '.' :: r =>
    let (fraction, rest) := splitBefore ['e', 'E'] r
    let fraction ← Text.joinDigits? 10 fraction
    return sign ++ whole ++ '.' :: fraction ++ (← exponent? rest)
  | rest => return sign ++ whole ++ (← exponent? rest)

/-- A float, unless it is written with digits and too large. -/
def float? (cs : List Char) : Option Value :=
  (floatText? cs).bind fun text =>
    let text := String.ofList text
    if text ≠ "inf" && Double.ofText? text = some (.infinite false) then none else some (.float text)

/-- The value of a word. -/
def ofWord? (word : List Char) : Option Value :=
  if word = "true".toList then some (.bool true)
  else if word = "false".toList then some (.bool false)
  else
    match DateTime.normalize? word with
    | some text => some (.dateTime (String.ofList text))
    | none =>
      match basedInt? word with
      | some v => some v
      | none =>
        match decimalInt? word with
        | some v => some v
        | none => float? word

/-- Reads a word. A date takes in a time after a space. -/
def scalar? (cs : List Char) : Option (Value × List Char) :=
  let (word, rest) := cs.span isWordChar
  let (next, beyond) := (rest.drop 1).span isWordChar
  if (DateTime.date? word).any (fun (_, r) => r.isEmpty) && rest.head? = some ' ' && next.head?.any Char.isDigit then
    (ofWord? (word ++ ' ' :: next)).map (·, beyond)
  else (ofWord? word).map (·, rest)

end FlowScript.Toml
