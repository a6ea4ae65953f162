import FlowScript.Text.Blank
import Mathlib.Data.List.Infix

/-!
# Ink

The ink of a text is the number of its characters that are not blank. Erasing types is measured by it: a removal takes
some ink away, while blanks come and go.
-/

namespace FlowScript.Text

/-- How many characters are not blank. -/
def ink (cs : List Char) : Nat := cs.countP fun c => !isBlank c

@[simp] theorem ink_nil : ink [] = 0 := rfl

@[simp] theorem ink_append (a b : List Char) : ink (a ++ b) = ink a + ink b := List.countP_append

theorem ink_cons_of_not_isBlank {c : Char} (dark : isBlank c = false) (cs : List Char) : ink (c :: cs) = ink cs + 1 := by
  simp [ink, dark]

theorem ink_le_of_prefix {a b : List Char} (h : a <+: b) : ink a ≤ ink b := List.Sublist.countP_le h.sublist

theorem ink_le_of_infix {a b : List Char} (h : a <:+: b) : ink a ≤ ink b := List.Sublist.countP_le h.sublist

theorem ink_pos_of_mem {c : Char} {cs : List Char} (mem : c ∈ cs) (dark : isBlank c = false) : 0 < ink cs :=
  List.countP_pos_iff.2 ⟨c, mem, by simp [dark]⟩

/-! ## The blanks -/

/-- The characters that are blank. -/
def blanks : List Char :=
  ['\t', '\n', '\x0b', '\x0c', '\r', ' ', '\u0085', '\u00a0', '\u1680', '\u2000', '\u2001', '\u2002', '\u2003',
    '\u2004', '\u2005', '\u2006', '\u2007', '\u2008', '\u2009', '\u200a', '\u2028', '\u2029', '\u202f',
    '\u205f', '\u3000']

theorem mem_blanks {c : Char} (blank : isBlank c = true) : c ∈ blanks := by
  have code : c.toNat ∈ blanks.map Char.toNat := by
    simp [isBlank] at blank
    simp [blanks]
    omega
  obtain ⟨d, mem, same⟩ := List.mem_map.1 code
  rwa [← Char.toNat_inj.1 same]

/-! ## Trimming -/

theorem trimEnd_cons_of_not_isBlank {c : Char} (dark : isBlank c = false) (r : List Char) :
    trimEnd (c :: r) = c :: trimEnd r := by
  rw [trimEnd]
  cases trimEnd r with
  | nil => simp [dark]
  | cons d s => rfl

theorem trimEnd_isPrefix (cs : List Char) : trimEnd cs <+: cs := by
  induction cs with
  | nil => exact List.prefix_refl _
  | cons c r ih =>
    unfold trimEnd
    split
    · split
      · exact List.nil_prefix
      · exact List.cons_prefix_cons.2 ⟨rfl, List.nil_prefix⟩
    · rename_i d s trimmed
      rw [trimmed] at ih
      exact List.cons_prefix_cons.2 ⟨rfl, ih⟩

/-- Blanks are cut off only behind a character that is none. -/
theorem trimEnd_append {a : List Char} (dark : ∀ c, a.getLast? = some c → isBlank c = false) (b : List Char) :
    trimEnd (a ++ b) = a ++ trimEnd b := by
  induction a with
  | nil => rfl
  | cons c r ih =>
    cases r with
    | nil => exact trimEnd_cons_of_not_isBlank (dark c rfl) b
    | cons d s =>
      have rest : trimEnd (d :: s ++ b) = d :: (s ++ trimEnd b) := ih fun c last => dark c (by simpa using last)
      rw [List.cons_append, trimEnd, rest]
      rfl

theorem trimEnd_eq_nil_of_all {cs : List Char} (blank : cs.all isBlank = true) : trimEnd cs = [] := by
  induction cs with
  | nil => rfl
  | cons c r ih =>
    obtain ⟨first, rest⟩ := Bool.and_eq_true_iff.1 blank
    rw [trimEnd, ih rest]
    simp [first]

theorem trim_cons_of_isBlank {c : Char} (blank : isBlank c = true) (cs : List Char) : trim (c :: cs) = trim cs := by
  rw [trim, trimStart, List.dropWhile_cons_of_pos blank]
  rfl

theorem trim_cons_of_not_isBlank {c : Char} (dark : isBlank c = false) (cs : List Char) :
    trim (c :: cs) = c :: trimEnd cs := by
  rw [trim, trimStart, List.dropWhile_cons_of_neg (by simp [dark]), trimEnd_cons_of_not_isBlank dark]

theorem trimEnd_trimEnd (cs : List Char) : trimEnd (trimEnd cs) = trimEnd cs := by
  induction cs with
  | nil => rfl
  | cons c cs ih =>
    cases blank : isBlank c with
    | false => rw [trimEnd_cons_of_not_isBlank blank, trimEnd_cons_of_not_isBlank blank, ih]
    | true =>
      rw [trimEnd]
      cases rest : trimEnd cs with
      | nil => simp [blank, trimEnd]
      | cons d ds =>
        show trimEnd (c :: d :: ds) = c :: d :: ds
        rw [trimEnd, ← rest, ih, rest]

theorem trim_trim (cs : List Char) : trim (trim cs) = trim cs := by
  induction cs with
  | nil => rfl
  | cons c cs ih =>
    cases blank : isBlank c with
    | true => rw [trim_cons_of_isBlank blank, ih]
    | false => rw [trim_cons_of_not_isBlank blank, trim_cons_of_not_isBlank blank, trimEnd_trimEnd]

section
variable {c : Char} (dark : isBlank c = false)
include dark

theorem count_cons_of_isBlank {d : Char} (blank : isBlank d = true) (cs : List Char) : (d :: cs).count c = cs.count c := by
  refine List.count_cons_of_ne ?_
  rintro rfl
  rw [dark] at blank
  cases blank

theorem count_trimEnd (cs : List Char) : (trimEnd cs).count c = cs.count c := by
  induction cs with
  | nil => rfl
  | cons d cs ih =>
    cases blank : isBlank d with
    | false => rw [trimEnd_cons_of_not_isBlank blank, List.count_cons, List.count_cons, ih]
    | true =>
      rw [count_cons_of_isBlank dark blank, ← ih, trimEnd]
      cases trimEnd cs with
      | nil => simp [blank]
      | cons e es => exact count_cons_of_isBlank dark blank (e :: es)

/-- Trimming leaves every character that is not blank. -/
theorem count_trim (cs : List Char) : (trim cs).count c = cs.count c := by
  induction cs with
  | nil => rfl
  | cons d cs ih =>
    cases blank : isBlank d with
    | false => rw [trim_cons_of_not_isBlank blank, List.count_cons, List.count_cons, count_trimEnd dark]
    | true => rw [trim_cons_of_isBlank blank, ih, count_cons_of_isBlank dark blank]

end

end FlowScript.Text
