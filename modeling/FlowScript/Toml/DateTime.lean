import FlowScript.Text.Digits

/-!
# Dates and times of TOML

A date, a time of day, or both with or without an offset from UTC. The usual form has a `T` between date and time, a
capital `Z`, and fractions of a second of at most nine digits without zeros at the end.
-/

namespace FlowScript.Toml.DateTime

/-- Reads some decimal digits at the front of a text as a number in a range. -/
def digits? (count low high : Nat) (cs : List Char) : Option (Nat × List Char) :=
  if cs.length < count then none
  else
    (Text.number? 10 (cs.take count)).bind fun n =>
      if low ≤ n && n ≤ high then some (n, cs.drop count) else none

/-- What follows a character at the front of a text. -/
def after? (c : Char) : List Char → Option (List Char)
  | [] => none
  | d :: r => if d = c then some r else none

def isLeapYear (year : Nat) : Bool := year % 4 = 0 && (year % 100 ≠ 0 || year % 400 = 0)

/-- How many days a month has. -/
def daysIn (year month : Nat) : Nat :=
  if month = 2 then (if isLeapYear year then 29 else 28)
  else if [4, 6, 9, 11].contains month then 30
  else 31

/-- The date at the front of a text, as written. -/
def date? (cs : List Char) : Option (List Char × List Char) := do
  let (year, r) ← digits? 4 0 9999 cs
  let r ← after? '-' r
  let (month, r) ← digits? 2 1 12 r
  let r ← after? '-' r
  let (_, r) ← digits? 2 1 (daysIn year month) r
  return (cs.take 10, r)

/-- The fraction of a second at the front of a text, if there is one. After its point stands at least one digit. -/
def fraction? (cs : List Char) : Option (List Char × List Char) :=
  match after? '.' cs with
  | none => some ([], cs)
  | some r =>
    match r.span Char.isDigit with
    | ([], _) => none
    | (ds, rest) =>
      let kept := ((ds.take 9).reverse.dropWhile (· = '0')).reverse
      some (if kept.isEmpty then [] else '.' :: kept, rest)

/-- The time of day at the front of a text, in its usual form. -/
def time? (cs : List Char) : Option (List Char × List Char) := do
  let (_, r) ← digits? 2 0 23 cs
  let r ← after? ':' r
  let (_, r) ← digits? 2 0 59 r
  let r ← after? ':' r
  let (_, r) ← digits? 2 0 60 r
  let (fraction, r) ← fraction? r
  return (cs.take 8 ++ fraction, r)

/-- The offset at the front of a text, if there is one, in its usual form. -/
def offset? : List Char → Option (List Char × List Char)
  | [] => some ([], [])
  | c :: r =>
    if c = 'z' || c = 'Z' then some (['Z'], r)
    else if c = '+' || c = '-' then do
      let (hours, s) ← digits? 2 0 23 r
      let s ← after? ':' s
      let (minutes, s) ← digits? 2 0 59 s
      let sign := if hours = 0 && minutes = 0 then '+' else c
      return (sign :: r.take 5, s)
    else some ([], c :: r)

/-- A date, a time or both, in the usual form, if that is the whole text. -/
def normalize? (cs : List Char) : Option (List Char) :=
  match date? cs with
  | none => (time? cs).bind fun (time, rest) => if rest.isEmpty then some time else none
  | some (date, []) => some date
  | some (date, c :: r) =>
    if c = 't' || c = 'T' || c = ' ' then do
      let (time, r) ← time? r
      let (offset, r) ← offset? r
      if r.isEmpty then some (date ++ 'T' :: time ++ offset) else none
    else none

end FlowScript.Toml.DateTime
