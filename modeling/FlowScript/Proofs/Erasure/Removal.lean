import FlowScript.Proofs.Erasure.Apply
import FlowScript.Proofs.Parse.Total
import FlowScript.Proofs.Source.Trailing

/-!
# Removals take ink away

Type syntax and the statements that go with it begin with a token, so what is removed of them is never blank: each edit
that goes with a match of types cuts the source.
-/

namespace FlowScript.Parse
open FlowScript.Grammar (Rule ruleBody ruleKind)
open FlowScript.Peg (Cursor Derivation Fits Chain)
open Text (ink)

/-- The rules whose matches may be removed. -/
def isRemovable (rule : Rule) : Bool :=
  (typeKeyword? rule).isSome || (erasure? rule).isSome || rule = .importDecl || rule = .exportDecl

/-- The characters that begin a token and no comment. -/
def beginsToken (c : Char) : Bool := c ≠ '/' && !Text.isBlank c

/-- A match that may be removed stands where trivia is skipped, and begins with a token. -/
theorem opens_of_isRemovable {rule : Rule} (removable : isRemovable rule = true) :
    ruleKind rule = .plain ∧ (ruleBody rule).resumes = false ∧
      grammar.opens beginsToken 8 (ruleBody rule) = true := by
  cases rule <;> first | exact ⟨rfl, rfl, rfl⟩ | cases removable

theorem content_of_reaches {rule : Rule} {start stop : Cursor} {text : List Char} (read : start.Reaches text stop) :
    Site.content ⟨rule, start, stop⟩ = Source.dropTrivia text := by
  rw [Site.content, Site.text_of_reaches read]

/-- The text of a match is its content and what trails it. -/
theorem exists_content {t : Derivation Rule} (fits : Fits grammar t) :
    ∃ tail, t.start.Reaches ((Site.ofTree t).content ++ tail) t.stop := by
  cases fits with
  | @node rule x start stop children visible body =>
    obtain ⟨text, read⟩ := (body.chain grammar_wellFormed).reaches
    obtain ⟨tail, whole⟩ := Source.dropTrivia_isPrefix text
    refine ⟨tail, ?_⟩
    change start.Reaches (Site.content ⟨rule, start, stop⟩ ++ tail) stop
    rw [content_of_reaches read, whole]
    exact read

/-- A match that stands where trivia is skipped begins with a character that its rule may begin with. -/
theorem exists_opens {t : Derivation Rule} (fits : Fits grammar t) {mark : Char → Bool}
    (plain : ruleKind t.rule = .plain) (tight : (ruleBody t.rule).resumes = false)
    (opens : grammar.opens mark 8 (ruleBody t.rule) = true) :
    ∃ d text, mark d = true ∧ t.start.Reaches (d :: text) t.stop := by
  cases fits with
  | node visible body settled surrounded inside =>
    exact body.opens grammar_wellFormed opens fun _ => settled (surrounded plain) tight

/-- The content of a match that may be removed begins with no blank. -/
theorem exists_content_cons {t : Derivation Rule} (fits : Fits grammar t) (removable : isRemovable t.rule = true) :
    ∃ d s, Text.isBlank d = false ∧ (Site.ofTree t).content = d :: s := by
  obtain ⟨plain, tight, opens⟩ := opens_of_isRemovable removable
  obtain ⟨d, text, begins, read⟩ := exists_opens fits plain tight opens
  obtain ⟨token, dark⟩ : d ≠ '/' ∧ Text.isBlank d = false := by simpa [beginsToken] using begins
  obtain ⟨s, kept⟩ := Source.dropTrivia_cons token dark text
  exact ⟨d, s, dark, (content_of_reaches read).trans kept⟩

theorem ink_content_pos {t : Derivation Rule} (fits : Fits grammar t) (removable : isRemovable t.rule = true) :
    0 < ink (Site.ofTree t).content := by
  obtain ⟨d, s, dark, content⟩ := exists_content_cons fits removable
  rw [content, Text.ink_cons_of_not_isBlank dark]
  exact Nat.succ_pos _

/-! ## Edits between two places -/

/-- An edit stands between two places of a source, and puts less ink in than it takes out. -/
def CutsBetween (c d : Cursor) (e : Edit) : Prop :=
  ∃ lead c' old d' tail, c.Reaches lead c' ∧ c'.Reaches old d' ∧ d'.Reaches tail d ∧ e.start = c'.offset ∧
    e.stop = d'.offset ∧ ink e.replacement.toList < ink old

namespace CutsBetween

variable {c c' d d' : Cursor} {e : Edit}

/-- Such an edit cuts the source that leads there. -/
theorem cuts {source a : List Char} (here : (Cursor.start source).Reaches a c) (h : CutsBetween c d e) :
    e.Cuts source := by
  obtain ⟨lead, c', old, d', tail, before, read, -, start, stop, less⟩ := h
  have further := here.append before
  refine ⟨a ++ lead, old, d'.rest, ?_, ?_, ?_, less⟩
  · rw [List.append_assoc, ← read.rest]
    exact further.rest
  · rw [start, further.offset]
    exact Nat.zero_add _
  · rw [stop, (further.append read).offset]
    exact Nat.zero_add _

theorem widen {before after : List Char} (first : c'.Reaches before c) (h : CutsBetween c d e)
    (last : d.Reaches after d') : CutsBetween c' d' e := by
  obtain ⟨lead, m, old, n, tail, toHere, read, behind, rest⟩ := h
  exact ⟨_, m, old, n, _, first.append toHere, read, behind.append last, rest⟩

theorem inside (h : CutsBetween c d e) : c.offset ≤ e.start ∧ e.stop ≤ d.offset := by
  obtain ⟨lead, c', old, d', tail, before, -, behind, start, stop, -⟩ := h
  have := before.offset
  have := behind.offset
  omega

end CutsBetween

/-- Removing the content of a match, alone or with its line. -/
theorem removal_cuts {t : Derivation Rule} (fits : Fits grammar t) (removable : isRemovable t.rule = true)
    (wholeLine : Bool) : CutsBetween t.start t.stop ⟨t.start.offset, (Site.ofTree t).contentStop, "", wholeLine⟩ := by
  obtain ⟨tail, read⟩ := exists_content fits
  obtain ⟨m, content, behind⟩ := read.split
  exact ⟨[], t.start, _, m, tail, .refl _, content, behind, rfl, content.offset.symm, ink_content_pos fits removable⟩

/-- Removing a type after an operand, with the space between them. -/
theorem suffix_cuts {before after : List (Derivation Rule)} {operand type : Derivation Rule} {c d : Cursor}
    (chain : Chain c (before ++ operand :: type :: after) d) (fitsOperand : Fits grammar operand)
    (fitsType : Fits grammar type) (removable : isRemovable type.rule = true) :
    CutsBetween c d (Edit.remove (Site.ofTree operand).contentStop (Site.ofTree type).contentStop) := by
  obtain ⟨m, first, rest⟩ := chain.split
  obtain ⟨lead, toHere⟩ := first.reaches
  cases rest with
  | cons gap inside rest =>
    cases rest with
    | cons between insideType rest =>
      obtain ⟨tail, read⟩ := exists_content fitsOperand
      obtain ⟨e, content, trailing⟩ := read.split
      obtain ⟨tailType, readType⟩ := exists_content fitsType
      obtain ⟨f, contentType, behind⟩ := readType.split
      obtain ⟨last, toEnd⟩ := rest.reaches
      refine ⟨_, e, _, f, _, (toHere.append gap).append content, (trailing.append between).append contentType,
        behind.append toEnd, content.offset.symm, contentType.offset.symm, ?_⟩
      have dark := ink_content_pos fitsType removable
      rw [Text.ink_append]
      exact Nat.lt_of_lt_of_le dark (Nat.le_add_left _ _)

end FlowScript.Parse
