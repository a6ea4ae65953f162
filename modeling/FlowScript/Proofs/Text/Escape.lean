import FlowScript.Text.Escape
import Mathlib.Data.Nat.Digits.Defs

/-!
# What escape sequences stand for

The body of a string literal is a sequence of atoms: single characters and escapes, each with a meaning of its own.
Decoding one atom leaves exactly what follows it, so the meaning of a body is that of its atoms one after the other.
-/

namespace FlowScript.Text.Escape

/-- The hexadecimal digits with their values. -/
def hexTable : List (Char × Nat) :=
  ['0', '1', '2', '3', '4', '5', '6', '7', '8', '9'].zipIdx ++ ['a', 'b', 'c', 'd', 'e', 'f'].zipIdx 10 ++
    ['A', 'B', 'C', 'D', 'E', 'F'].zipIdx 10

/-- The letters that stand for control characters behind a backslash. -/
def controlTable : List (Char × Char) :=
  [('n', '\n'), ('t', '\t'), ('r', '\r'), ('b', '\x08'), ('f', '\x0c'), ('v', '\x0b'), ('0', '\x00')]

/-- A hexadecimal digit with its value. -/
structure HexDigit where
  char : Char
  value : Nat
  listed : (char, value) ∈ hexTable

/-- The number that hexadecimal digits stand for, the most significant first. -/
def valueOf (digits : List HexDigit) : Nat := Nat.ofDigits 16 (digits.map HexDigit.value).reverse

/-- A part of the body of a string literal that has a meaning of its own. -/
inductive Atom
  /-- A character that is not a backslash. -/
  | plain (c : Char) (unescaped : c ≠ '\\')
  /-- A backslash and a letter for a control character. -/
  | control (letter meaning : Char) (listed : (letter, meaning) ∈ controlTable)
  /-- A backslash, `x` and two digits. -/
  | byte (high low : HexDigit)
  /-- A backslash, `u` and four digits for a Unicode scalar. -/
  | unit (a b c d : HexDigit) (scalar : (valueOf [a, b, c, d]).isValidChar)
  /-- A backslash, `u` and digits in braces for a Unicode scalar. -/
  | braced (digits : List HexDigit) (some : digits ≠ []) (scalar : (valueOf digits).isValidChar)
  /-- A backslash at the end of a line: the literal goes on with the next. -/
  | continuation
  /-- A backslash and a character that begins no other escape. -/
  | other (c : Char) (unlisted : c ∉ controlTable.map Prod.fst) (unnumbered : c ≠ 'x' ∧ c ≠ 'u') (inLine : c ≠ '\n')

namespace Atom

/-- How an atom is written. -/
def text : Atom → List Char
  | plain c _ => [c]
  | control letter _ _ => ['\\', letter]
  | byte high low => ['\\', 'x', high.char, low.char]
  | unit a b c d _ => ['\\', 'u', a.char, b.char, c.char, d.char]
  | braced digits _ _ => '\\' :: 'u' :: '\x7b' :: (digits.map HexDigit.char ++ ['\x7d'])
  | continuation => ['\\', '\n']
  | other c _ _ _ => ['\\', c]

/-- What an atom stands for. -/
def meaning : Atom → List Char
  | plain c _ => [c]
  | control _ meaning _ => [meaning]
  | byte high low => [Char.ofNat (valueOf [high, low])]
  | unit a b c d _ => [Char.ofNat (valueOf [a, b, c, d])]
  | braced digits _ _ => [Char.ofNat (valueOf digits)]
  | continuation => []
  | other c _ _ _ => [c]

end Atom

/-! ## Numbers -/

theorem HexDigit.hexDigit?_char (d : HexDigit) : hexDigit? d.char = some d.value := by
  have agree : ∀ d ∈ hexTable, hexDigit? d.1 = some d.2 := by decide
  exact agree _ d.listed

theorem HexDigit.value_lt (d : HexDigit) : d.value < 16 := by
  have small : ∀ d ∈ hexTable, d.2 < 16 := by decide
  exact small _ d.listed

/-- No digit is a sign or a brace. -/
theorem HexDigit.char_ne (d : HexDigit) : d.char ≠ '+' ∧ d.char ≠ '\x7b' ∧ d.char ≠ '\x7d' := by
  have apart : ∀ d ∈ hexTable, d.1 ≠ '+' ∧ d.1 ≠ '\x7b' ∧ d.1 ≠ '\x7d' := by decide
  exact apart _ d.listed

theorem numberFrom?_digits (n : Nat) (digits : List HexDigit) :
    numberFrom? 16 n (digits.map HexDigit.char) =
      some (Nat.ofDigits 16 ((digits.map HexDigit.value).reverse ++ [n])) := by
  induction digits generalizing n with
  | nil => simp [numberFrom?]
  | cons d ds ih =>
    have digit : digit? 16 d.char = some d.value := by
      rw [digit?, d.hexDigit?_char, Option.filter_some, if_pos (by simpa using d.value_lt)]
    rw [List.map_cons, numberFrom?, digit, Option.bind_some, ih, List.map_cons, List.reverse_cons, List.append_assoc,
      Nat.ofDigits_append, Nat.ofDigits_append]
    simp [Nat.ofDigits_cons, Nat.add_comm]

theorem ofHex_digits {digits : List HexDigit} (some : digits ≠ []) (scalar : (valueOf digits).isValidChar) :
    ofHex (digits.map HexDigit.char) = [Char.ofNat (valueOf digits)] := by
  have number : hexNumber? (digits.map HexDigit.char) = .some (valueOf digits) := by
    have read := numberFrom?_digits 0 digits
    rw [Nat.ofDigits_append] at read
    cases digits with
    | nil => exact absurd rfl some
    | cons d ds =>
      rw [List.map_cons, hexNumber?, if_neg d.char_ne.1, number?]
      simpa [valueOf] using read
  rw [ofHex, number]
  exact if_pos scalar

/-! ## Decoding atom by atom -/

theorem decodeFrom_digits {digits : List HexDigit} (read rest : List Char) :
    decodeFrom (.braced read) (digits.map HexDigit.char ++ '\x7d' :: rest) =
      ofHex (read ++ digits.map HexDigit.char) ++ decodeFrom .plain rest := by
  induction digits generalizing read with
  | nil => simp [decodeFrom]
  | cons d ds ih =>
    rw [List.map_cons, List.cons_append, decodeFrom, if_neg d.char_ne.2.2, ih, List.append_assoc, List.singleton_append]

theorem decodeFrom_control {letter meaning : Char} (listed : (letter, meaning) ∈ controlTable) (rest : List Char) :
    decodeFrom .escape (letter :: rest) = meaning :: decodeFrom .plain rest := by
  have single : ∀ e ∈ controlTable, (e.1 ≠ 'x' ∧ e.1 ≠ 'u') ∧ ofChar e.1 = [e.2] := by decide
  obtain ⟨⟨notByte, notUnit⟩, meant⟩ := single _ listed
  rw [decodeFrom, if_neg notByte, if_neg notUnit, meant, List.singleton_append]

theorem ofChar_of_not_mem {c : Char} (unlisted : c ∉ controlTable.map Prod.fst) (inLine : c ≠ '\n') :
    ofChar c = [c] := by
  simp only [controlTable, List.map_cons, List.map_nil, List.mem_cons, List.not_mem_nil, or_false, not_or] at unlisted
  unfold ofChar
  split <;> simp_all

/-- Decoding an atom gives its meaning and goes on right behind it. -/
theorem decodeFrom_atom (a : Atom) (rest : List Char) :
    decodeFrom .plain (a.text ++ rest) = a.meaning ++ decodeFrom .plain rest := by
  have backslash (cs : List Char) : decodeFrom .plain ('\\' :: cs) = decodeFrom .escape cs := by
    rw [decodeFrom, if_pos rfl]
  cases a with
  | plain c unescaped => simp [Atom.text, Atom.meaning, decodeFrom, unescaped]
  | control letter meaning listed =>
    exact (backslash _).trans (decodeFrom_control listed rest)
  | byte high low =>
    have small := high.value_lt
    have small' := low.value_lt
    have scalar : (valueOf [high, low]).isValidChar := by
      left
      simp [valueOf, Nat.ofDigits_cons]
      omega
    rw [Atom.meaning, ← ofHex_digits (List.cons_ne_nil _ _) scalar]
    simp [Atom.text, decodeFrom]
  | unit a b c d scalar =>
    rw [Atom.meaning, ← ofHex_digits (List.cons_ne_nil _ _) scalar]
    simp [Atom.text, decodeFrom, a.char_ne.2.1]
  | braced digits some scalar =>
    rw [Atom.meaning, ← ofHex_digits some scalar, ← List.nil_append (digits.map HexDigit.char), ← decodeFrom_digits]
    simp [Atom.text, decodeFrom]
  | continuation => simp [Atom.text, Atom.meaning, decodeFrom, ofChar]
  | other c unlisted unnumbered inLine =>
    simp [Atom.text, Atom.meaning, decodeFrom, unnumbered, ofChar_of_not_mem unlisted inLine]

/-- The body of a string literal stands for what its atoms stand for, one after the other. -/
theorem decode_atoms (atoms : List Atom) : decode (atoms.flatMap Atom.text) = atoms.flatMap Atom.meaning := by
  unfold decode
  induction atoms with
  | nil => rfl
  | cons a atoms ih => rw [List.flatMap_cons, List.flatMap_cons, decodeFrom_atom, ih]

/-- Digits of either case, leading zeros, and an escape right behind another. -/
example : decode "\\x4a\\u00E9\\u\x7b00001F600\x7d\\\n\\\\n".toList = "Jé😀\\n".toList := by
  decide +kernel

end FlowScript.Text.Escape
