import FlowScript.Text.Case
import FlowScript.Text.Search
import Mathlib.Data.List.Infix

/-!
# Full lower case

A full lower case changes more characters than `lower` does, and a capital sigma becomes one of two letters, by the text
around it. None of them has ASCII letters in its lower case, so a search for ASCII patterns finds the same in both.
-/

namespace FlowScript.Text

def isAscii (c : Char) : Bool := c.val < 128

/-- Whether the lower case of a character has ASCII characters in it. -/
def hasAsciiLower (c : Char) : Bool := isAscii c || c = '\u212a' || c = '\u0130'

theorem lowerChar_of_other {c : Char} (other : hasAsciiLower c = false) : lowerChar c = [c] := by
  simp only [hasAsciiLower, Bool.or_eq_false_iff, decide_eq_false_iff_not] at other
  obtain ⟨⟨plain, kelvin⟩, dotted⟩ := other
  have capital : ¬ ('A' ≤ c ∧ c ≤ 'Z') := by
    rintro ⟨-, upper⟩
    have small : c.val < 128 := Nat.lt_of_le_of_lt (show c.val ≤ 90 from upper) (by decide)
    rw [isAscii, decide_eq_true small] at plain
    contradiction
  rw [lowerChar, if_neg capital, if_neg kelvin, if_neg dotted]

/-- A full lower case: what becomes of each character, and which of the capital sigmas between two texts ends a word. -/
structure LowerCase where
  ofChar : Char → List Char
  endsWord : List Char → List Char → Bool
  ofChar_of_ascii : ∀ c, hasAsciiLower c = true → ofChar c = lowerChar c
  ofChar_ne_nil : ∀ c, ofChar c ≠ []
  not_isAscii_ofChar : ∀ c, hasAsciiLower c = false → ∀ d ∈ ofChar c, isAscii d = false

namespace LowerCase

/-- What becomes of a character between two texts. -/
def between (full : LowerCase) (before : List Char) (c : Char) (behind : List Char) : List Char :=
  if c = 'Σ' then [if full.endsWord before behind then 'ς' else 'σ'] else full.ofChar c

/-- What becomes of the rest of a text. -/
def lowerFrom (full : LowerCase) (before : List Char) : List Char → List Char
  | [] => []
  | c :: r => full.between before c r ++ full.lowerFrom (before ++ [c]) r

/-- A text with its characters in full lower case. -/
def lower (full : LowerCase) (text : String) : String := String.ofList (full.lowerFrom [] text.toList)

/-- The least full lower case changes no more characters than `lower` does, but for sigma. -/
instance : Inhabited LowerCase where
  default :=
    { ofChar := lowerChar
      endsWord := fun _ behind => behind.isEmpty
      ofChar_of_ascii := fun _ _ => rfl
      ofChar_ne_nil := fun c => by unfold lowerChar; split_ifs <;> simp
      not_isAscii_ofChar := fun c other d mem => by
        rw [lowerChar_of_other other, List.mem_singleton] at mem
        simp only [hasAsciiLower, Bool.or_eq_false_iff] at other
        rw [mem, other.1.1] }

variable (full : LowerCase) (before : List Char) {c : Char} (behind : List Char)

theorem between_of_ascii (ascii : hasAsciiLower c = true) : full.between before c behind = lowerChar c := by
  have plain : c ≠ 'Σ' := by
    rintro rfl
    exact absurd ascii (by decide)
  rw [between, if_neg plain, full.ofChar_of_ascii c ascii]

theorem between_ne_nil : full.between before c behind ≠ [] := by
  unfold between
  split_ifs
  · simp
  · simp
  · exact full.ofChar_ne_nil c

theorem not_isAscii_between (other : hasAsciiLower c = false) :
    ∀ d ∈ full.between before c behind, isAscii d = false := by
  intro d mem
  unfold between at mem
  split_ifs at mem
  · rw [List.mem_singleton.1 mem]; decide
  · rw [List.mem_singleton.1 mem]; decide
  · exact full.not_isAscii_ofChar c other d mem

end LowerCase

/-! ## Texts that are alike but for other characters -/

/-- Two texts that have the same ASCII characters, and between them other characters at the same places. -/
inductive Alike : List Char → List Char → Prop
  | nil : Alike [] []
  | cons (c : Char) {l r : List Char} : Alike l r → Alike (c :: l) (c :: r)
  | other {u v : Char} {us vs l r : List Char} (left : ∀ d ∈ u :: us, isAscii d = false)
      (right : ∀ d ∈ v :: vs, isAscii d = false) : Alike l r → Alike (u :: us ++ l) (v :: vs ++ r)

namespace Alike

theorem symm {l r : List Char} (h : Alike l r) : Alike r l := by
  induction h with
  | nil => exact .nil
  | cons c _ ih => exact .cons c ih
  | other left right _ ih => exact .other right left ih

theorem append (us : List Char) {l r : List Char} (h : Alike l r) : Alike (us ++ l) (us ++ r) := by
  induction us with
  | nil => exact h
  | cons u us ih => exact .cons u ih

variable {pattern l r : List Char}

theorem isPrefix (h : Alike l r) (ascii : ∀ c ∈ pattern, isAscii c = true) (found : pattern <+: l) : pattern <+: r := by
  induction h generalizing pattern with
  | nil => exact found
  | cons c _ ih =>
    cases pattern with
    | nil => exact List.nil_prefix
    | cons p ps =>
      obtain ⟨rfl, rest⟩ := List.cons_prefix_cons.1 found
      exact List.cons_prefix_cons.2 ⟨rfl, ih (fun c mem => ascii c (List.mem_cons_of_mem _ mem)) rest⟩
  | @other u v us vs l r left right _ ih =>
    cases pattern with
    | nil => exact List.nil_prefix
    | cons p ps =>
      obtain ⟨rfl, -⟩ := List.cons_prefix_cons.1 found
      have := ascii p List.mem_cons_self
      rw [left p List.mem_cons_self] at this
      contradiction

/-- A pattern does not begin among other characters. -/
theorem isInfix_of_append {us : List Char} (other : ∀ d ∈ us, isAscii d = false)
    (ascii : ∀ c ∈ pattern, isAscii c = true) (found : pattern <:+: us ++ l) : pattern <:+: l := by
  induction us with
  | nil => exact found
  | cons u us ih =>
    rcases List.infix_cons_iff.1 found with here | later
    · cases pattern with
      | nil => exact List.nil_infix
      | cons p ps =>
        obtain ⟨rfl, -⟩ := List.cons_prefix_cons.1 here
        have := ascii p List.mem_cons_self
        rw [other p List.mem_cons_self] at this
        contradiction
    · exact ih (fun d mem => other d (List.mem_cons_of_mem _ mem)) later

theorem isInfix (h : Alike l r) (ascii : ∀ c ∈ pattern, isAscii c = true) (found : pattern <:+: l) : pattern <:+: r := by
  induction h with
  | nil => exact found
  | cons c h ih =>
    rcases List.infix_cons_iff.1 found with here | later
    · exact ((h.cons c).isPrefix ascii here).isInfix
    · exact List.infix_cons (ih later)
  | other left right _ ih => exact List.infix_append_of_infix_right (ih (isInfix_of_append left ascii found))

end Alike

theorem alike_lowerFrom (full : LowerCase) (before text : List Char) :
    Alike (full.lowerFrom before text) (text.flatMap lowerChar) := by
  induction text generalizing before with
  | nil => exact .nil
  | cons c r ih =>
    rw [LowerCase.lowerFrom, List.flatMap_cons]
    cases ascii : hasAsciiLower c with
    | true =>
      rw [full.between_of_ascii before r ascii]
      exact (ih _).append _
    | false =>
      have others := full.not_isAscii_between before r ascii
      obtain ⟨v, vs, lowered⟩ := List.exists_cons_of_ne_nil (full.between_ne_nil before r (c := c))
      rw [lowered] at others ⊢
      rw [lowerChar_of_other ascii]
      refine .other others (fun d mem => ?_) (ih _)
      simp only [hasAsciiLower, Bool.or_eq_false_iff] at ascii
      rw [List.mem_singleton.1 mem, ascii.1.1]

/-- ASCII patterns occur in the full lower case of a text if they occur where only ASCII letters were put in lower
    case. -/
theorem containsAny_lower (full : LowerCase) (text : String) {patterns : List String}
    (ascii : ∀ p ∈ patterns, p.toList.all isAscii = true) :
    containsAny (full.lower text) patterns = containsAny (lower text) patterns := by
  have each (p : String) (mem : p ∈ patterns) : contains (full.lower text) p = true ↔ contains (lower text) p = true := by
    have alike := alike_lowerFrom full [] text.toList
    have plain : ∀ c ∈ p.toList, isAscii c = true := List.all_eq_true.1 (ascii p mem)
    rw [contains, contains, occursIn_iff, occursIn_iff, LowerCase.lower, lower, String.toList_ofList,
      String.toList_ofList]
    exact ⟨alike.isInfix plain, alike.symm.isInfix plain⟩
  rw [Bool.eq_iff_iff, containsAny, containsAny, List.any_eq_true, List.any_eq_true]
  exact exists_congr fun p => and_congr_right (each p)

end FlowScript.Text
