import FlowScript.Proofs.Text.Ink
import FlowScript.Text.OneLine
import Mathlib.Data.List.Basic

/-!
# Texts of one line

A text without line feeds is one line. Putting such texts together keeps them so, and text cut to a width is always so,
as it is made of words. Lines that are each ended by a line feed are read back as they are.
-/

namespace FlowScript.Text

/-- Texts without a line feed. -/
def Inline (text : String) : Prop := '\n' ∉ text.toList

instance : DecidablePred Inline := fun text => inferInstanceAs (Decidable ('\n' ∉ text.toList))

theorem inline_ofList {cs : List Char} : Inline (String.ofList cs) ↔ '\n' ∉ cs := by
  rw [Inline, String.toList_ofList]

theorem inline_append {a b : String} : Inline (a ++ b) ↔ Inline a ∧ Inline b := by
  simp [Inline]

theorem inline_of_dark {text : String} (dark : ∀ c ∈ text.toList, isBlank c = false) : Inline text := by
  intro mem
  have := dark _ mem
  revert this
  decide

theorem mem_intercalate {c : Char} {separator : List Char} {parts : List (List Char)}
    (mem : c ∈ separator.intercalate parts) : c ∈ separator ∨ ∃ part ∈ parts, c ∈ part := by
  induction parts with
  | nil => cases mem
  | cons part parts ih =>
    cases parts with
    | nil => exact .inr ⟨part, List.mem_singleton_self _, by simpa using mem⟩
    | cons next others =>
      rw [List.intercalate_cons_cons, List.mem_append, List.mem_append] at mem
      rcases mem with (here | between) | later
      · exact .inr ⟨part, List.mem_cons_self .., here⟩
      · exact .inl between
      · rcases ih later with between | ⟨other, among, there⟩
        · exact .inl between
        · exact .inr ⟨other, List.mem_cons_of_mem _ among, there⟩

theorem inline_intercalate {separator : String} {parts : List String} (between : Inline separator)
    (each : ∀ part ∈ parts, Inline part) : Inline (separator.intercalate parts) := by
  intro mem
  rw [String.toList_intercalate] at mem
  rcases mem_intercalate mem with mem | ⟨part, among, mem⟩
  · exact between mem
  · obtain ⟨text, inside, rfl⟩ := List.mem_map.1 among
    exact each text inside mem

/-- No character of a word is a blank. -/
theorem isBlank_of_mem_words {cs word : List Char} (mem : word ∈ words cs) : ∀ c ∈ word, isBlank c = false := by
  have consWord_mem {first : List Char} {others : List (List Char)} {w : List Char} (mem : w ∈ consWord first others) :
      w = first ∨ w ∈ others := by
    unfold consWord at mem
    split at mem
    · exact .inr mem
    · exact List.mem_cons.1 mem
  -- The first word is carried along, as it is not ended yet.
  suffices all : (∀ c ∈ (splitWords cs).1, isBlank c = false) ∧ ∀ w ∈ (splitWords cs).2, ∀ c ∈ w, isBlank c = false by
    rcases consWord_mem mem with rfl | later
    · exact all.1
    · exact all.2 word later
  clear mem
  induction cs with
  | nil => exact ⟨nofun, nofun⟩
  | cons d cs ih =>
    obtain ⟨first, others⟩ := ih
    rw [splitWords_cons]
    cases blank : isBlank d with
    | true =>
      refine ⟨nofun, fun w mem => ?_⟩
      rcases consWord_mem mem with rfl | later
      · exact first
      · exact others w later
    | false => exact ⟨List.forall_mem_cons.2 ⟨blank, first⟩, others⟩

theorem inline_normalize (text : String) : Inline (normalize text) := by
  rw [normalize, inline_ofList]
  intro mem
  rcases mem_intercalate mem with between | ⟨word, among, mem⟩
  · revert between
    decide
  · have := isBlank_of_mem_words among _ mem
    revert this
    decide

theorem inline_oneLine (text : String) (max : Nat) : Inline (oneLine text max) := by
  have whole := inline_normalize text
  unfold oneLine truncate
  split
  · decide
  · split
    · exact whole
    · rw [inline_ofList, List.mem_append]
      rintro (kept | cut)
      · exact whole (List.mem_of_mem_take kept)
      · revert cut
        decide

theorem inline_trimEnd {text : String} (inline : Inline text) : Inline (String.ofList (trimEnd text.toList)) := by
  rw [inline_ofList]
  intro mem
  exact inline ((trimEnd_isPrefix text.toList).subset mem)

theorem inline_toString (n : Nat) : Inline (toString n) := by
  intro mem
  have digit : '\n' ∈ Nat.toDigits 10 n := by simpa using mem
  have := Nat.isDigit_of_mem_toDigits (by decide) (by decide) digit
  revert this
  decide

/-! ## Lines -/

/-- What stands before the first line feed is the first line. -/
theorem splitLines_append_cons {line : List Char} (clear : '\n' ∉ line) (rest : List Char) :
    splitLines (line ++ '\n' :: rest) = (line, (splitLines rest).1 :: (splitLines rest).2) := by
  induction line with
  | nil => rw [List.nil_append, splitLines_cons, if_pos rfl]
  | cons c line ih =>
    obtain ⟨other, clear⟩ : c ≠ '\n' ∧ '\n' ∉ line := by simpa [eq_comm] using clear
    rw [List.cons_append, splitLines_cons, if_neg other, ih clear]

/-- Texts of one line that are each ended by a line feed are the lines, and an empty one is behind them. -/
theorem lines_joinLines {texts : List String} (each : ∀ text ∈ texts, Inline text) :
    lines (joinLines texts) = texts ++ [""] := by
  induction texts with
  | nil => rfl
  | cons text texts ih =>
    obtain ⟨first, later⟩ := List.forall_mem_cons.1 each
    have front : (joinLines (text :: texts)).toList = text.toList ++ '\n' :: (joinLines texts).toList := by
      simp [joinLines]
    rw [lines, front, splitLines_append_cons first, List.cons_append, ← ih later, lines]
    simp

end FlowScript.Text
