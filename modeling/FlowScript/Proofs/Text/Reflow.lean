import FlowScript.Text.OneLine

/-!
# Texts that differ in their breaks only

A text is reflowed when runs of blanks in it are put in place of other runs of blanks, none of them empty. Its words
stay, and so does what it looks like on one line.
-/

namespace FlowScript.Text

/-- Two lists of characters that are alike but for runs of blanks, which stand at the same places in both. -/
inductive Reflowed : List Char → List Char → Prop
  | nil : Reflowed [] []
  | cons (c : Char) {l r : List Char} : Reflowed l r → Reflowed (c :: l) (c :: r)
  | break {u v : Char} {us vs l r : List Char} (left : ∀ d ∈ u :: us, isBlank d = true)
    (right : ∀ d ∈ v :: vs, isBlank d = true) : Reflowed l r → Reflowed (u :: us ++ l) (v :: vs ++ r)

/-- A text that is alike but for runs of blanks. -/
def ReflowOf (text other : String) : Prop := Reflowed text.toList other.toList

namespace Reflowed

variable {l r l' r' : List Char}

protected theorem refl (cs : List Char) : Reflowed cs cs := by
  induction cs with
  | nil => exact .nil
  | cons c cs ih => exact .cons c ih

protected theorem append (h : Reflowed l r) (h' : Reflowed l' r') : Reflowed (l ++ l') (r ++ r') := by
  induction h with
  | nil => exact h'
  | cons c _ ih => exact .cons c ih
  | «break» left right _ ih =>
    rw [List.append_assoc, List.append_assoc]
    exact .break left right ih

/-- A character that is no blank stands at the front of both or of none. -/
theorem prefix_iff (h : Reflowed l r) {c : Char} (dark : isBlank c = false) : [c] <+: l ↔ [c] <+: r := by
  have other : ∀ {d : Char} {ds : List Char}, isBlank d = true → ¬ [c] <+: d :: ds := by
    intro d ds blank found
    obtain ⟨rfl, -⟩ := List.cons_prefix_cons.1 found
    rw [blank] at dark
    cases dark
  cases h with
  | nil => exact Iff.rfl
  | cons d h => simp [List.cons_prefix_cons]
  | «break» left right h =>
    exact iff_of_false (other (left _ List.mem_cons_self)) (other (right _ List.mem_cons_self))

theorem splitWords_append_of_blank {u : Char} {us : List Char} (blank : ∀ d ∈ u :: us, isBlank d = true)
    (cs : List Char) : splitWords (u :: us ++ cs) = ([], words cs) := by
  obtain ⟨first, rest⟩ := List.forall_mem_cons.1 blank
  rw [List.cons_append, splitWords_cons, if_pos first]
  induction us with
  | nil => rfl
  | cons d us ih =>
    obtain ⟨next, others⟩ := List.forall_mem_cons.1 rest
    rw [List.cons_append, words_cons_of_isBlank next]
    exact ih (List.forall_mem_cons.2 ⟨first, others⟩) others

/-- The word at the front and the words after it are the same in both. -/
theorem splitWords_eq (h : Reflowed l r) : splitWords l = splitWords r := by
  induction h with
  | nil => rfl
  | cons c _ ih => rw [splitWords_cons, splitWords_cons, words, words, ih]
  | «break» left right _ ih =>
    rw [splitWords_append_of_blank left, splitWords_append_of_blank right, words, words, ih]

theorem words_eq (h : Reflowed l r) : words l = words r := by
  rw [words, words, h.splitWords_eq]

end Reflowed

namespace ReflowOf

variable {a b c d : String}

protected theorem refl : ReflowOf a a := Reflowed.refl _

protected theorem append (h : ReflowOf a b) (h' : ReflowOf c d) : ReflowOf (a ++ c) (b ++ d) := by
  rw [ReflowOf, String.toList_append, String.toList_append]
  exact Reflowed.append h h'

/-- On one line both look alike, whatever the width. -/
theorem oneLine_eq (h : ReflowOf a b) (max : Nat) : oneLine a max = oneLine b max := by
  rw [oneLine, oneLine, normalize, normalize, Reflowed.words_eq h]

end ReflowOf

end FlowScript.Text
