import FlowScript.Text.Digits

/-!
# Double-precision numbers

Floating-point numbers of 64 bits as exact values: what decimal text stands for, the nearest natural number, and the
shortest decimal text that reads back. All of it is arithmetic on natural numbers.
-/

namespace FlowScript

/-- A floating-point number of 64 bits. -/
inductive Double
  /-- The number `mantissa * 2 ^ (shift - 1074)`, with its sign. Of the mantissas of a number the largest below `2 ^ 53`
      with a shift that is a natural number is taken. -/
  | finite (negative : Bool) (mantissa shift : Nat)
  | infinite (negative : Bool)
  | nan
deriving Repr, DecidableEq

namespace Double

/-- The quotient rounded to the nearest number, a half to the even one. -/
def roundDiv (num den : Nat) : Nat :=
  let q := num / den
  let twice := 2 * (num % den)
  if twice > den || (twice = den && q % 2 = 1) then q + 1 else q

/-- The mantissa and shift nearest to a quotient `num / den * 2 ^ -1074`. -/
def nearest (num den : Nat) : Nat × Nat :=
  let shift := num.log2 - den.log2 - 53
  let m := roundDiv num (den * Nat.pow 2 shift)
  if m < Nat.pow 2 53 then (m, shift)
  else
    let m := roundDiv num (den * Nat.pow 2 (shift + 1))
    if m < Nat.pow 2 53 then (m, shift + 1) else (Nat.pow 2 52, shift + 2)

/-- The number nearest to `digits * 10 ^ exponent`. -/
def ofDecimal (negative : Bool) (digits : Nat) (exponent : Int) : Double :=
  let size := (Nat.toDigits 10 digits).length + exponent
  if digits = 0 || size < -330 then finite negative 0 0
  else if size > 310 then infinite negative
  else
    let (m, shift) :=
      if exponent ≥ 0 then nearest (digits * Nat.pow 10 exponent.toNat * Nat.pow 2 1074) 1
      else nearest (digits * Nat.pow 2 1074) (Nat.pow 10 (-exponent).toNat)
    if shift > 2045 then infinite negative else finite negative m shift

/-! ## Reading -/

/-- The exponent after `e`, zero if there is none. -/
def exponent? : List Char → Option Int
  | [] => some 0
  | c :: r =>
    if c = 'e' || c = 'E' then
      match r with
      | [] => none
      | d :: s =>
        if d = '-' then (Text.number? 10 s).map fun n => -(n : Int)
        else if d = '+' then (Text.number? 10 s).map Int.ofNat
        else (Text.number? 10 r).map Int.ofNat
    else none

/-- The number of decimal text without a sign. -/
def ofMagnitude? (negative : Bool) (cs : List Char) : Option Double :=
  let word := String.ofList (cs.map Char.toLower)
  if word = "inf" || word = "infinity" then some (infinite negative)
  else if word = "nan" then some nan
  else
    let (whole, rest) := cs.span Char.isDigit
    let (fraction, rest) :=
      match rest with
      | [] => ([], [])
      | c :: r => if c = '.' then r.span Char.isDigit else ([], c :: r)
    (Text.number? 10 (whole ++ fraction)).bind fun digits =>
      (exponent? rest).map fun e => ofDecimal negative digits (e - fraction.length)

/-- The number that decimal text stands for. -/
def ofText? (text : String) : Option Double :=
  match text.toList with
  | [] => none
  | c :: r =>
    if c = '-' then ofMagnitude? true r else if c = '+' then ofMagnitude? false r else ofMagnitude? false (c :: r)

/-! ## Views -/

/-- Whether the number is zero. -/
def isZero : Double → Bool
  | finite _ m _ => m = 0
  | _ => false

/-- The nearest natural number up to a largest one, a half to the larger; numbers below zero, and what is no number,
    give zero. -/
def toNat (largest : Nat) : Double → Nat
  | finite false m shift => min largest ((2 * m * Nat.pow 2 shift / Nat.pow 2 1074 + 1) / 2)
  | finite true _ _ => 0
  | infinite negative => if negative then 0 else largest
  | nan => 0

/-- The number of decimal digits before the point of a quotient that is not below one. -/
def wholeSize (num den : Nat) : Nat := (Nat.toDigits 10 (num / den)).length

/-- The zeros between the point and the first other digit of a quotient between zero and one. -/
def leadingZeros : (rounds num den : Nat) → Nat
  | 0, _, _ => 0
  | n + 1, num, den => if 10 * num ≥ den then 0 else leadingZeros n (10 * num) den + 1

/-- The power of ten that a quotient is below, while it is not below the next smaller one. -/
def magnitude (num den : Nat) : Int :=
  if num ≥ den then wholeSize num den else -(leadingZeros 400 num den : Int)

/-- The shortest digits of a number, with the power of ten of the last one. Among `count` to 17 digits the first count
    with a decimal in the interval of the reals that round to the number wins; of two decimals the nearer one. The
    number is `4 * m` units of `unit / den`, its interval from `low` to `high` of them. -/
def shortestFrom (m low high unit den : Nat) (closed : Bool) (top : Int) : (rounds count : Nat) → Nat × Int
  | 0, count => (4 * m * unit / den * Nat.pow 10 count, -(count : Int))
  | n + 1, count =>
    let place := top - count
    let up := if place ≥ 0 then 1 else Nat.pow 10 (-place).toNat
    let down := if place ≥ 0 then Nat.pow 10 place.toNat else 1
    -- the digits below and above the number
    let below := 4 * m * unit * up / (den * down)
    let scaled (units : Nat) : Nat := units * unit * up
    let grid (digits : Nat) : Nat := digits * den * down
    let inside (digits : Nat) : Bool :=
      if closed then scaled low ≤ grid digits && grid digits ≤ scaled high
      else scaled low < grid digits && grid digits < scaled high
    let nearAbove := grid (below + 1) - scaled (4 * m) < scaled (4 * m) - grid below
    if inside below && !(inside (below + 1) && nearAbove) then (below, place)
    else if inside (below + 1) then (below + 1, place)
    else shortestFrom m low high unit den closed top n (count + 1)

/-- The shortest digits that read back as a number other than zero, with the power of ten of the last one. -/
def shortest (m shift : Nat) : Nat × Int :=
  let den := 4 * Nat.pow 2 1074
  let unit := Nat.pow 2 shift
  let low := if m = Nat.pow 2 52 && shift > 0 then 4 * m - 1 else 4 * m - 2
  let (digits, place) := shortestFrom m low (4 * m + 2) unit den (m % 2 = 0) (magnitude (4 * m * unit) den) 17 1
  -- the decimal above the number may be a power of ten
  if digits % 10 = 0 then (digits / 10, place + 1) else (digits, place)

/-- Digits with a point, or zeros, so that the last digit stands for a power of ten. -/
def placed (digits : Nat) (place : Int) : String :=
  let ds := Nat.toDigits 10 digits
  if place ≥ 0 then String.ofList (ds ++ List.replicate place.toNat '0')
  else
    let after := (-place).toNat
    let padded := List.replicate (after + 1 - ds.length) '0' ++ ds
    String.ofList (padded.take (padded.length - after) ++ '.' :: padded.drop (padded.length - after))

/-- The shortest decimal text without an exponent that reads back as the number. -/
def text : Double → String
  | finite negative m shift =>
    (if negative then "-" else "") ++ (if m = 0 then "0" else
      let (digits, place) := shortest m shift
      placed digits place)
  | infinite negative => if negative then "-inf" else "inf"
  | nan => "NaN"

end Double
end FlowScript
