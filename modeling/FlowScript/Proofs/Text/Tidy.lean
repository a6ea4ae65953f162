import FlowScript.Proofs.Text.Lines
import FlowScript.Proofs.Text.OneLine
import Mathlib.Data.List.TakeWhile

/-!
# Tidy text

Text is tidy when its only blanks are single spaces inside of it. Tidy texts are the words with one space between them,
so putting them on one line changes nothing. Cutting a tidy text keeps it tidy: where the cut leaves a space at the end,
the ellipsis stands behind it.
-/

namespace FlowScript.Text

/-- Every blank is a space with a character that is not blank on each side of it. -/
def Tidy (cs : List Char) : Prop :=
  ∀ before c after, cs = before ++ c :: after → isBlank c = true →
    c = ' ' ∧ (∃ d ∈ before.getLast?, isBlank d = false) ∧ ∃ d ∈ after.head?, isBlank d = false

/-- A word is not empty and has no blank in it. -/
def IsWord (word : List Char) : Prop := word ≠ [] ∧ ∀ c ∈ word, isBlank c = false

variable {cs word : List Char} {parts : List (List Char)}

theorem consWord_of_ne_nil (some_ : word ≠ []) (others : List (List Char)) : consWord word others = word :: others := by
  rw [consWord, if_neg (by simpa using some_)]

/-! ## Words -/

theorem isWord_of_mem_words (mem : word ∈ words cs) : IsWord word := by
  refine ⟨?_, isBlank_of_mem_words mem⟩
  have consWord_some {first : List Char} {others : List (List Char)} (each : ∀ w ∈ others, w ≠ []) :
      ∀ w ∈ consWord first others, w ≠ [] := by
    unfold consWord
    split
    · exact each
    · rename_i some_
      exact List.forall_mem_cons.2 ⟨by simpa using some_, each⟩
  -- The first word may be empty as long as it is not ended.
  suffices later : ∀ w ∈ (splitWords cs).2, w ≠ [] from consWord_some later word mem
  clear mem
  induction cs with
  | nil => nofun
  | cons d cs ih =>
    rw [splitWords_cons]
    cases isBlank d with
    | true => exact consWord_some ih
    | false => exact ih

/-- Words with one space between them are read back as they are. -/
theorem words_intercalate (each : ∀ part ∈ parts, IsWord part) : words ([' '].intercalate parts) = parts := by
  induction parts with
  | nil => rfl
  | cons part parts ih =>
    obtain ⟨⟨some_, dark⟩, later⟩ := List.forall_mem_cons.1 each
    cases parts with
    | nil => rw [List.intercalate_singleton, words_of_dark dark, consWord_of_ne_nil some_]
    | cons next others =>
      rw [List.intercalate_cons_cons, List.append_assoc, List.singleton_append, words_append_of_isBlank dark isBlank_space,
        ih later, consWord_of_ne_nil some_]

theorem isBlank_head_intercalate {part : List Char} (first : IsWord part) (parts : List (List Char)) :
    ∃ d ∈ ([' '].intercalate (part :: parts)).head?, isBlank d = false := by
  obtain ⟨some_, dark⟩ := first
  obtain ⟨d, rest, rfl⟩ := List.exists_cons_of_ne_nil some_
  refine ⟨d, ?_, dark d List.mem_cons_self⟩
  cases parts with
  | nil => rw [List.intercalate_singleton]; rfl
  | cons next others => rw [List.intercalate_cons_cons]; rfl

/-! ## Words with one space between them are tidy -/

theorem tidy_of_dark (dark : ∀ c ∈ cs, isBlank c = false) : Tidy cs := by
  rintro before c after rfl blank
  rw [dark c (List.mem_append_right _ List.mem_cons_self)] at blank
  cases blank

theorem tidy_word_append (first : IsWord word) {rest : List Char} (tidy : Tidy rest)
    (front : ∃ d ∈ rest.head?, isBlank d = false) : Tidy (word ++ ' ' :: rest) := by
  obtain ⟨some_, dark⟩ := first
  intro before c after split blank
  rcases List.append_eq_append_iff.1 split with ⟨gap, rfl, tail⟩ | ⟨gap, rfl, tail⟩
  · cases gap with
    | nil =>
      obtain ⟨rfl, rfl⟩ := List.cons.inj tail
      refine ⟨rfl, ⟨word.getLast some_, ?_, dark _ (List.getLast_mem some_)⟩, front⟩
      rw [List.append_nil, List.getLast?_eq_some_getLast some_]
      rfl
    | cons space gap =>
      obtain ⟨rfl, same⟩ := List.cons.inj tail
      obtain ⟨space, ⟨d, last, left⟩, right⟩ := tidy gap c after same blank
      refine ⟨space, ⟨d, ?_, left⟩, right⟩
      rw [List.append_cons, List.getLast?_append, Option.mem_def.1 last]
      rfl
  · cases gap with
    | nil =>
      obtain ⟨rfl, rfl⟩ := List.cons.inj tail
      rw [List.append_nil] at some_ dark
      exact ⟨rfl, ⟨before.getLast some_, List.getLast?_eq_some_getLast some_, dark _ (List.getLast_mem some_)⟩, front⟩
    | cons d gap =>
      obtain ⟨rfl, -⟩ := List.cons.inj tail
      rw [dark c (List.mem_append_right _ List.mem_cons_self)] at blank
      cases blank

theorem tidy_intercalate (each : ∀ part ∈ parts, IsWord part) : Tidy ([' '].intercalate parts) := by
  induction parts with
  | nil => exact tidy_of_dark nofun
  | cons part parts ih =>
    obtain ⟨first, later⟩ := List.forall_mem_cons.1 each
    cases parts with
    | nil => exact tidy_of_dark (by simpa using first.2)
    | cons next others =>
      rw [List.intercalate_cons_cons, List.append_assoc, List.singleton_append]
      exact tidy_word_append first (ih later) (isBlank_head_intercalate (later next List.mem_cons_self) others)

theorem tidy_normalize (text : String) : Tidy (normalize text).toList := by
  rw [normalize, String.toList_ofList]
  exact tidy_intercalate fun _ => isWord_of_mem_words

/-! ## Tidy text stays as it is -/

theorem Tidy.of_append_cons {before after : List Char} {c : Char} (tidy : Tidy (before ++ c :: after))
    (blank : isBlank c = true) : Tidy after := by
  rintro left d right rfl blank'
  obtain ⟨space, ⟨e, last, dark⟩, next⟩ := tidy (before ++ c :: left) d right (by simp) blank'
  refine ⟨space, ⟨e, ?_, dark⟩, next⟩
  rw [List.getLast?_append, List.getLast?_cons, Option.some_or, Option.mem_some_iff] at last
  cases gap : left.getLast? with
  | none =>
    rw [gap, Option.getD_none] at last
    rw [← last, blank] at dark
    cases dark
  | some f => simpa [gap] using last

/-- Tidy text is some words with one space between them. -/
theorem Tidy.exists_words (tidy : Tidy cs) : ∃ parts, (∀ part ∈ parts, IsWord part) ∧ cs = [' '].intercalate parts := by
  induction size : cs.length using Nat.strongRecOn generalizing cs with
  | ind n ih =>
    cases rest : cs.dropWhile (!isBlank ·) with
    | nil =>
      have dark : ∀ c ∈ cs, isBlank c = false := by simpa using List.dropWhile_eq_nil_iff.1 rest
      by_cases some_ : cs = []
      · exact ⟨[], nofun, some_⟩
      · exact ⟨[cs], List.forall_mem_singleton.2 ⟨some_, dark⟩, List.intercalate_singleton.symm⟩
    | cons c after =>
      have split : cs = cs.takeWhile (!isBlank ·) ++ c :: after := by rw [← rest, List.takeWhile_append_dropWhile]
      have blank : isBlank c = true := by
        have stops := List.head?_dropWhile_not (!isBlank ·) cs
        simpa [rest] using stops
      have dark : ∀ d ∈ cs.takeWhile (!isBlank ·), isBlank d = false := fun d mem => by
        simpa using List.mem_takeWhile_imp mem
      obtain ⟨space, ⟨d, last, -⟩, e, next, -⟩ := tidy _ c after split blank
      have some_ : cs.takeWhile (!isBlank ·) ≠ [] := fun empty => by simp [empty] at last
      have shorter : after.length < n := by
        rw [← size, split]
        simp
        omega
      obtain ⟨parts, each, same⟩ := ih after.length shorter (split ▸ tidy |>.of_append_cons blank) rfl
      refine ⟨cs.takeWhile (!isBlank ·) :: parts, List.forall_mem_cons.2 ⟨⟨some_, dark⟩, each⟩, ?_⟩
      cases parts with
      | nil =>
        rw [same] at next
        cases next
      | cons part parts =>
        rw [List.intercalate_cons_cons, ← same, List.append_assoc, List.singleton_append, ← space, ← split]

/-- The text on one line is the tidy text that has the same words. -/
theorem normalize_eq_iff {text other : String} :
    normalize text = other ↔ Tidy other.toList ∧ words other.toList = words text.toList := by
  constructor
  · rintro rfl
    refine ⟨tidy_normalize text, ?_⟩
    rw [normalize, String.toList_ofList, words_intercalate fun _ => isWord_of_mem_words]
  · rintro ⟨tidy, same⟩
    obtain ⟨parts, each, shape⟩ := tidy.exists_words
    rw [shape, words_intercalate each] at same
    rw [normalize, ← same, ← shape, String.ofList_toList]

/-! ## Cut text -/

theorem Tidy.take_append (tidy : Tidy cs) (n : Nat) : Tidy (cs.take n ++ ['…']) := by
  intro before c after split blank
  obtain ⟨middle, rfl⟩ : ∃ middle, after = middle ++ ['…'] := by
    rcases List.eq_nil_or_concat' after with rfl | ⟨middle, last, rfl⟩
    · obtain ⟨-, same⟩ := List.append_inj' split rfl
      obtain ⟨rfl, -⟩ := List.cons.inj same
      exact absurd blank (by decide)
    · refine ⟨middle, ?_⟩
      rw [← List.cons_append, ← List.append_assoc] at split
      obtain ⟨-, same⟩ := List.append_inj' split rfl
      rw [same]
  have kept : cs.take n = before ++ c :: middle := by
    rw [← List.cons_append, ← List.append_assoc] at split
    exact List.append_cancel_right split
  obtain ⟨space, left, d, next, right⟩ :=
    tidy before c (middle ++ cs.drop n) (by rw [← List.cons_append, ← List.append_assoc, ← kept, List.take_append_drop]) blank
  refine ⟨space, left, ?_⟩
  cases middle with
  | nil => exact ⟨'…', rfl, by decide⟩
  | cons e middle => exact ⟨d, next, right⟩

theorem tidy_oneLine (text : String) (max : Nat) : Tidy (oneLine text max).toList := by
  have whole := tidy_normalize text
  unfold oneLine truncate
  split
  · exact tidy_of_dark nofun
  · split
    · exact whole
    · rw [String.toList_ofList]
      exact whole.take_append (max - 1)

theorem truncate_of_fits {text : String} {max : Nat} (fits : text.length ≤ max) : truncate text max = text := by
  unfold truncate
  split
  · rename_i none_
    subst none_
    exact (String.length_eq_zero_iff.1 (Nat.le_zero.1 fits)).symm
  · rfl

theorem oneLine_of_tidy {text : String} {max : Nat} (tidy : Tidy text.toList) (fits : text.length ≤ max) :
    oneLine text max = text := by
  rw [oneLine, normalize_eq_iff.2 ⟨tidy, rfl⟩, truncate_of_fits fits]

/-- The text on one line has at most the characters asked for and no blanks but single spaces inside. It is the whole
tidy text of the same words where that fits, and else as much of it as fits with an ellipsis. Putting it on a line again
that is not narrower changes nothing. -/
theorem oneLine_bounded_normal_form (text : String) (max : Nat) :
    (oneLine text max).length ≤ max ∧ Tidy (oneLine text max).toList ∧
      (∀ whole, normalize text = whole ↔ Tidy whole.toList ∧ words whole.toList = words text.toList) ∧
      ((normalize text).length ≤ max → oneLine text max = normalize text) ∧
      (1 ≤ max → max < (normalize text).length →
        (oneLine text max).toList = (normalize text).toList.take (max - 1) ++ ['…'] ∧ (oneLine text max).length = max) ∧
      ∀ m n, m ≤ n → oneLine (oneLine text m) n = oneLine text m := by
  refine ⟨truncate_length_le _ max, tidy_oneLine text max, fun _ => normalize_eq_iff, truncate_of_fits,
    fun pos long => ?_, fun m n le => ?_⟩
  · have cut : (oneLine text max).toList = (normalize text).toList.take (max - 1) ++ ['…'] := by
      rw [oneLine, truncate, if_neg (Nat.ne_of_gt pos), if_neg (Nat.not_le.2 long), String.toList_ofList]
    refine ⟨cut, ?_⟩
    rw [← String.length_toList] at long ⊢
    rw [cut, List.length_append, List.length_take, List.length_singleton]
    omega
  · exact oneLine_of_tidy (tidy_oneLine text m) ((truncate_length_le _ m).trans le)

/-- A cut behind a space leaves the space. -/
theorem oneLine_bounded_normal_form_space :
    1 ≤ 3 ∧ 3 < (normalize " a\n b  c ").length ∧
      (Tidy "a b c".toList ∧ words "a b c".toList = words " a\n b  c ".toList) ∧
      (oneLine " a\n b  c " 3).toList = ['a', ' ', '…'] ∧
      oneLine (oneLine " a\n b  c " 3) 4 = oneLine " a\n b  c " 3 := by
  have line : normalize " a\n b  c " = "a b c" := by decide +kernel
  have long : 3 < (normalize " a\n b  c ").length := line ▸ by decide
  obtain ⟨-, -, whole, -, cut, again⟩ := oneLine_bounded_normal_form " a\n b  c " 3
  exact ⟨by decide, long, (whole "a b c").1 line, (cut (by decide) long).1.trans (by decide +kernel),
    again 3 4 (by decide)⟩

end FlowScript.Text
