import FlowScript.Proofs.Text.Ink
import FlowScript.Proofs.Text.Parts
import FlowScript.Text.Case

/-!
# Searching in text on one line

What has no blank in it is found in a text exactly when it is found in the text on one line, in small letters or as
written. In a cut text it is found exactly when it is found in what was left of the text.
-/

namespace FlowScript.Text

/-! ## Words -/

theorem words_append_of_isBlank {word : List Char} (dark : ∀ c ∈ word, isBlank c = false) {b : Char}
    (blank : isBlank b = true) (cs : List Char) : words (word ++ b :: cs) = consWord word (words cs) := by
  have split : splitWords (word ++ b :: cs) = (word, words cs) := by
    induction word with
    | nil => rw [List.nil_append, splitWords_cons, if_pos blank]
    | cons c word ih =>
      rw [List.cons_append, splitWords_cons, dark c List.mem_cons_self, ih fun d mem => dark d (List.mem_cons_of_mem _ mem)]
      rfl
  rw [words, split]

theorem words_of_dark {word : List Char} (dark : ∀ c ∈ word, isBlank c = false) : words word = consWord word [] := by
  have split : splitWords word = (word, []) := by
    induction word with
    | nil => rfl
    | cons c word ih =>
      rw [splitWords_cons, dark c List.mem_cons_self, ih fun d mem => dark d (List.mem_cons_of_mem _ mem)]
      rfl
  rw [words, split]

section
variable {f : Char → List Char} {pattern : List Char} (keeps : ∀ c, isBlank c = true → f c = [c]) (some_ : pattern ≠ [])
  (dark : ∀ c ∈ pattern, isBlank c = false)
include some_

theorem infix_consWord_iff (word : List Char) (others : List (List Char)) :
    (∃ part ∈ consWord word others, pattern <:+: part.flatMap f) ↔
      pattern <:+: word.flatMap f ∨ ∃ part ∈ others, pattern <:+: part.flatMap f := by
  rw [consWord]
  split
  · rename_i empty
    simp [List.isEmpty_iff.1 empty, some_]
  · exact List.exists_mem_cons_iff ..

include keeps dark

/-- What has no blank in it occurs in the words alone, also where every other character is replaced. -/
theorem infix_flatMap_iff_words (cs : List Char) :
    pattern <:+: cs.flatMap f ↔ ∃ word ∈ words cs, pattern <:+: word.flatMap f := by
  -- The induction carries the characters since the last blank.
  suffices all : ∀ word : List Char, (∀ c ∈ word, isBlank c = false) →
      (pattern <:+: (word ++ cs).flatMap f ↔ ∃ part ∈ words (word ++ cs), pattern <:+: part.flatMap f) from
    all [] (by simp)
  induction cs with
  | nil =>
    intro word clear
    rw [List.append_nil, words_of_dark clear, infix_consWord_iff some_]
    simp
  | cons c cs ih =>
    intro word clear
    cases blank : isBlank c with
    | true =>
      have apart : c ∉ pattern := fun mem => by simp [dark c mem] at blank
      have rest := ih [] (by simp)
      rw [List.nil_append] at rest
      rw [words_append_of_isBlank clear blank, infix_consWord_iff some_, ← rest, List.flatMap_append, List.flatMap_cons,
        keeps c blank, List.singleton_append, infix_append_cons_iff apart]
    | false =>
      rw [List.append_cons]
      refine ih (word ++ [c]) fun d mem => ?_
      rcases List.mem_append.1 mem with before | here
      · exact clear d before
      · rwa [List.mem_singleton.1 here]

end

/-! ## Search in small letters -/

theorem lowerChar_of_isBlank {c : Char} (blank : isBlank c = true) : lowerChar c = [c] := by
  have all : blanks.all (fun c => lowerChar c = [c]) = true := by decide
  exact of_decide_eq_true (List.all_eq_true.1 all c (mem_blanks blank))

/-- The part of a text that is left where it is cut to a width, without the ellipsis. -/
def kept (text : String) (max : Nat) : String :=
  if text.length ≤ max then text else String.ofList (text.toList.take (max - 1))

theorem kept_of_le {text : String} {max : Nat} (fits : text.length ≤ max) : kept text max = text := if_pos fits

theorem kept_prefix (text : String) (max : Nat) : (kept text max).toList <+: text.toList := by
  unfold kept
  split
  · exact List.prefix_rfl
  · rw [String.toList_ofList]
    exact List.take_prefix _ _

/-- A wider text keeps what a narrower one keeps. -/
theorem kept_prefix_kept (text : String) {max wider : Nat} (le : max ≤ wider) :
    (kept text max).toList <+: (kept text wider).toList := by
  by_cases fits : text.length ≤ wider
  · rw [kept_of_le fits]
    exact kept_prefix text max
  · have long : ¬ text.length ≤ max := by omega
    rw [kept, kept, if_neg long, if_neg fits, String.toList_ofList, String.toList_ofList]
    exact List.take_prefix_take_left (by omega)

/-- A text that is cut has an ellipsis behind what is left of it. -/
theorem truncate_eq_kept (text : String) (max : Nat) :
    truncate text max = kept text max ∨ (truncate text max).toList = (kept text max).toList ++ ['…'] := by
  unfold truncate kept
  split
  · rename_i none_
    subst none_
    split
    · rename_i empty
      left
      exact (String.length_eq_zero_iff.1 (Nat.le_zero.1 empty)).symm
    · exact .inl rfl
  · split
    · exact .inl rfl
    · right
      rw [String.toList_ofList, String.toList_ofList]

theorem containsAny_lower_iff {text : String} {patterns : List String} :
    containsAny (lower text) patterns = true ↔ ∃ p ∈ patterns, p.toList <:+: text.toList.flatMap lowerChar := by
  simp only [containsAny, contains, List.any_eq_true, occursIn_iff, lower, String.toList_ofList]

section
variable {patterns : List String} (some_ : ∀ p ∈ patterns, p.toList ≠ [])
include some_

theorem containsAny_lower_normalize (dark : ∀ p ∈ patterns, ∀ c ∈ p.toList, isBlank c = false) (text : String) :
    containsAny (lower (normalize text)) patterns = containsAny (lower text) patterns := by
  rw [Bool.eq_iff_iff, containsAny_lower_iff, containsAny_lower_iff]
  refine exists_congr fun p => and_congr_right fun mem => ?_
  have apart : ' ' ∉ p.toList := fun blank => by simpa using dark p mem ' ' blank
  rw [normalize, String.toList_ofList, flatMap_intercalate rfl, infix_intercalate_iff (some_ p mem) apart,
    infix_flatMap_iff_words (fun c => lowerChar_of_isBlank) (some_ p mem) (dark p mem)]
  simp only [List.mem_map, exists_exists_and_eq_and]

theorem containsAny_lower_truncate (apart : ∀ p ∈ patterns, '…' ∉ p.toList) (text : String) (max : Nat) :
    containsAny (lower (truncate text max)) patterns = containsAny (lower (kept text max)) patterns := by
  rcases truncate_eq_kept text max with same | cut
  · rw [same]
  · rw [Bool.eq_iff_iff, containsAny_lower_iff, containsAny_lower_iff]
    refine exists_congr fun p => and_congr_right fun mem => ?_
    rw [cut, List.flatMap_append, List.flatMap_singleton, show lowerChar '…' = ['…'] by decide,
      infix_append_cons_iff (apart p mem), List.infix_nil]
    simp [some_ p mem]

end

end FlowScript.Text
