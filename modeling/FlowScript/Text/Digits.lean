/-!
# Digits
-/

namespace FlowScript.Text

/-- The value of a hexadecimal digit. -/
def hexDigit? (c : Char) : Option Nat :=
  if '0' ≤ c ∧ c ≤ '9' then some (c.toNat - 48)
  else if 'a' ≤ c ∧ c ≤ 'f' then some (c.toNat - 87)
  else if 'A' ≤ c ∧ c ≤ 'F' then some (c.toNat - 55)
  else none

/-- The value of a digit in a base up to sixteen. -/
def digit? (base : Nat) (c : Char) : Option Nat := (hexDigit? c).filter (· < base)

/-- The value of digits in a base, read on from a value. -/
def numberFrom? (base value : Nat) : List Char → Option Nat
  | [] => some value
  | c :: r => (digit? base c).bind fun d => numberFrom? base (base * value + d) r

/-- The number that one or more digits in a base stand for. -/
def number? (base : Nat) (digits : List Char) : Option Nat :=
  if digits.isEmpty then none else numberFrom? base 0 digits

/-- The integer of a sign and a magnitude, if it fits into 64 bits. -/
def int64? (negative : Bool) (magnitude : Nat) : Option Int :=
  if negative then (if magnitude ≤ Nat.pow 2 63 then some (-(magnitude : Int)) else none)
  else if magnitude < Nat.pow 2 63 then some magnitude
  else none

/-- Digits with underscores between them, without the underscores; each underscore stands between two digits. -/
def joinDigits? (base : Nat) : List Char → Option (List Char)
  | [] => none
  | c :: r =>
    if (digit? base c).isSome then
      match r with
      | [] => some [c]
      | d :: s => if d = '_' then (joinDigits? base s).map (c :: ·) else (joinDigits? base (d :: s)).map (c :: ·)
    else none

/-- The last hexadecimal digits of a number. -/
def hexDigits (n : Nat) : (count : Nat) → List Char
  | 0 => []
  | count + 1 => hexDigits (n / 16) count ++ [Nat.digitChar (n % 16)]

end FlowScript.Text
