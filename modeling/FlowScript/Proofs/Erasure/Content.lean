import FlowScript.Proofs.Erasure.FixedPoint
import FlowScript.Proofs.Grammar.Names
import FlowScript.Proofs.Peg.Takes

/-!
# Where the content of a match ends

The content of a match is its text without the trivia behind its last token, and is found in the text alone, from its
end. Where the text up to the last token does not look like trivia at its end, no token is cut (`contentStop_of_parse`).
A token that holds the marks of a comment can be cut: a regular expression, or a line of a template.
-/

namespace FlowScript
open FlowScript.Peg (Cursor Derivation)

namespace Grammar

/-- Whether the last character of a rule's matches may be a blank. -/
def mayEndInBlank (rule : Rule) : Bool := rule = .templateChunk

theorem identChar_neverEndsIn_blanks {empty safe : Rule → Bool} :
    identChar.neverEndsIn Text.blanks empty safe = true := blanks_continue_no_name

theorem identStart_neverEndsIn_blanks {empty safe : Rule → Bool} :
    identStart.neverEndsIn Text.blanks empty safe = true := blanks_start_no_name

/-- No blank ends a match, but of a chunk of a template. -/
theorem body_neverEndsIn_blanks (r : Rule) (dark : (!mayEndInBlank r) = true) :
    (ruleBody r).neverEndsIn Text.blanks mayBeEmpty (!mayEndInBlank ·) = true := by
  cases r with
  | templateChunk => cases dark
  | keyword word => cases word <;> decide +kernel
  | operator op => cases op <;> decide +kernel
  | level tier => cases tier <;> decide +kernel
  | identifier | identifierName =>
    simp [ruleBody, Peg.parts, Peg.neverEndsIn, identStart_neverEndsIn_blanks, identChar_neverEndsIn_blanks]
  | privateName | regex =>
    simp only [ruleBody, Peg.parts, Peg.neverEndsIn, identStart_neverEndsIn_blanks, identChar_neverEndsIn_blanks]
    decide +kernel
  | _ => decide +kernel

end Grammar

namespace Parse
open FlowScript.Grammar (Rule)

variable {t : Derivation Rule} {d : Cursor} {solid gap : List Char}

/-- The text of a match up to its last token, and the trivia behind that. -/
theorem exists_solid (ends : t.EndsAt grammar d) :
    ∃ solid gap, t.start.Reaches solid d ∧ d.Reaches gap t.stop ∧ grammar.Settles d t.stop ∧
      (t.rule ≠ .templateChunk → ∀ c, solid.getLast? = some c → Text.isBlank c = false) := by
  have settles : grammar.Settles d t.stop := ends.settles grammar_wellFormed
  obtain ⟨gap, behind⟩ := settles.reaches grammar_wellFormed
  obtain ⟨front, ch, read, never⟩ := ends.endsIn grammar_wellFormed (fun r => (Grammar.body_ranked r).1)
    Grammar.body_neverEndsIn_blanks d rfl
  refine ⟨front ++ [ch], gap, read, behind, settles, fun dark c last => ?_⟩
  obtain rfl : ch = c := by simpa using last
  have safe := never (Grammar.body_neverEndsIn_blanks t.rule (by simpa [Grammar.mayEndInBlank] using dark))
  exact Bool.eq_false_iff.2 fun blank => safe (Text.mem_blanks blank)

/-- The content of a match ends where its text without trivia does. -/
theorem contentStop_of_reaches (before : t.start.Reaches solid d) (behind : d.Reaches gap t.stop) :
    (Site.ofTree t).contentStop = t.start.offset + Text.byteLength (Source.dropTrivia (solid ++ gap)) := by
  have content : (Site.ofTree t).content = Source.dropTrivia (solid ++ gap) := content_of_reaches (before.append behind)
  rw [Site.contentStop, content]
  rfl

/-- The content of a match ends with its last token when the text up to there is what is left without trivia. -/
theorem contentStop_eq_iff (before : t.start.Reaches solid d) (behind : d.Reaches gap t.stop) :
    (Site.ofTree t).contentStop = d.offset ↔ Source.dropTrivia (solid ++ gap) = solid := by
  rw [contentStop_of_reaches before behind, before.offset, Nat.add_left_cancel_iff]
  refine ⟨fun same => ?_, fun same => by rw [same]⟩
  obtain ⟨tail, whole⟩ := Source.dropTrivia_isPrefix (solid ++ gap)
  exact Edit.eq_of_byteLength_eq whole same

theorem le_contentStop (before : t.start.Reaches solid d) (behind : d.Reaches gap t.stop)
    (kept : solid <+: Source.dropTrivia (solid ++ gap)) : d.offset ≤ (Site.ofTree t).contentStop := by
  obtain ⟨rest, split⟩ := kept
  rw [contentStop_of_reaches before behind, before.offset, ← split, Text.byteLength_append]
  omega

theorem contentStop_le (before : t.start.Reaches solid d) (behind : d.Reaches gap t.stop) :
    (Site.ofTree t).contentStop ≤ t.stop.offset := by
  obtain ⟨tail, whole⟩ := Source.dropTrivia_isPrefix (solid ++ gap)
  have lengths := congrArg Text.byteLength whole
  rw [Text.byteLength_append] at lengths
  rw [contentStop_of_reaches before behind, (before.append behind).offset]
  omega

end Parse

/-- Where the content of a match ends: behind the last token and in the trivia there, when no comment is seen in the
    text up to that token and the token does not run into one. Where only blanks follow the token, the content ends
    with it exactly when no comment is seen at its end. -/
theorem contentStop_of_parse {source : String} {m : Module} (read : parseModule source = .ok m) :
    ∃ tree, grammar.parse fuelPerChar .program source.toList = .ok tree ∧ ∀ t, tree.Holds t →
      (Grammar.mayBeEmpty t.rule = false → ∃ d, t.EndsAt grammar d) ∧
      ∀ d, t.EndsAt grammar d → t.rule ≠ .templateChunk → ∃ solid gap, t.start.Reaches solid d ∧
        d.Reaches gap t.stop ∧ (t.stop = d ∨ t.stop = Grammar.Trivia.skip d) ∧
        (Source.Clear solid → Source.Apart solid gap →
          d.offset ≤ (Parse.Site.ofTree t).contentStop ∧ (Parse.Site.ofTree t).contentStop ≤ t.stop.offset) ∧
        (gap.all Text.isBlank = true →
          ((Parse.Site.ofTree t).contentStop = d.offset ↔ Source.beforeComment? solid = none)) := by
  obtain ⟨tree, part, parsed, -⟩ := exists_tree_of_parse read
  obtain ⟨fits, -, -⟩ := fits_of_parse parsed
  refine ⟨tree, parsed, fun t held => ⟨?_, fun d ends chunk => ?_⟩⟩
  · exact (fits.of_holds held).exists_endsAt fun r => (Grammar.body_ranked r).1
  · obtain ⟨solid, gap, before, behind, settles, dark⟩ := Parse.exists_solid ends
    refine ⟨solid, gap, before, behind, settles, fun clear apart => ⟨?_, ?_⟩, fun blank => ?_⟩
    · exact Parse.le_contentStop before behind (Source.isPrefix_dropTrivia (dark chunk) clear apart)
    · exact Parse.contentStop_le before behind
    · rw [Parse.contentStop_eq_iff before behind]
      exact Source.dropTrivia_append_blanks (dark chunk) blank

/-- The text of a `break` with a comment behind it. -/
private def breakText : List Char := "break // b".toList

private def breakEnd : Cursor := ⟨[], ⟨10, 0, 10⟩⟩

/-- Whether a program is the `break` of the text, up to its end. -/
private def isBreak : Derivation Grammar.Rule → Bool
  | .node _ _ _ [.node _ _ _ [.node .breakStmt start stop _], _] => start = .start breakText ∧ stop = breakEnd
  | _ => false

set_option maxRecDepth 100000 in
/-- A `break` ends before the comment behind it. -/
theorem contentStop_of_parse_break :
    ∃ m tree t d, ∃ solid gap : String, parseModule "break // b" = .ok m ∧
      grammar.parse fuelPerChar .program "break // b".toList = .ok tree ∧ tree.Holds t ∧ t.EndsAt grammar d ∧
      t.rule ≠ .templateChunk ∧ t.start.Reaches solid.toList d ∧ d.Reaches gap.toList t.stop ∧
      Source.Clear solid.toList ∧ Source.Apart solid.toList gap.toList ∧ solid = "break" ∧ gap = " // b" ∧
      d.offset ≤ (Parse.Site.ofTree t).contentStop ∧ (Parse.Site.ofTree t).contentStop ≤ t.stop.offset := by
  have one : (parseModule "break // b").toOption.map (·.items.length) = some 1 := by decide +kernel
  obtain ⟨m, read, -⟩ := exists_of_toOption_map one
  obtain ⟨tree, parsed, holds⟩ := contentStop_of_parse read
  have shape : (grammar.parse fuelPerChar .program "break // b".toList).toOption.map isBreak = some true := by
    decide +kernel
  rw [parsed] at shape
  have shape : isBreak tree = true := Option.some.inj shape
  unfold isBreak at shape
  split at shape
  · rename_i start stop children _ _
    obtain ⟨rfl, rfl⟩ := of_decide_eq_true shape
    let t : Derivation Grammar.Rule := .node .breakStmt (.start breakText) breakEnd children
    let d : Cursor := ⟨" // b".toList, ⟨5, 0, 5⟩⟩
    have ends : t.EndsAt grammar d := by
      have stops : Peg.Matches grammar Grammar.identChar .atomic d none := by
        refine .charFails ?_
        rintro _ _ ⟨⟩
        decide +kernel
      have word : Peg.Takes grammar (Grammar.kw .breakWord) .loose (.start breakText) d (some d) :=
        .call (Peg.Takes.seq (.text rfl) (.notAhead stops))
      have rest : Peg.Takes grammar Grammar.terminator .loose (grammar.skip d) breakEnd none := by
        have skipped : grammar.skip d = breakEnd := by decide +kernel
        exact skipped ▸ Peg.Takes.optNone (.textFails rfl)
      exact Peg.Takes.seq word rest
    have held {r s : Grammar.Rule} {a b a' b' : Cursor} {u : Derivation Grammar.Rule} :
        (Derivation.node r a b [.node s a' b' [t], u]).Holds t :=
      .inside (List.mem_cons_self ..) (.inside (List.mem_cons_self ..) .self)
    obtain ⟨solid, gap, before, behind, -, kept, -⟩ := (holds t held).2 d ends nofun
    obtain rfl : solid = "break".toList := before.unique ⟨rfl, rfl⟩
    obtain rfl : gap = " // b".toList := behind.unique ⟨rfl, rfl⟩
    have clear : Source.Clear "break".toList := ⟨by decide, by decide⟩
    have apart : Source.Apart "break".toList " // b".toList := nofun
    exact ⟨m, _, t, d, _, _, read, parsed, held, ends, nofun, before, behind, clear, apart, rfl, rfl, kept clear apart⟩
  · cases shape

set_option maxRecDepth 100000 in
/-- The marks of a comment in a regular expression or in a line of a template are taken for one, and the end of the
    literal goes with the type behind it. -/
theorem eraseTypes_cuts_literals :
    eraseTypes "a = /[//]/ as T" = "a = /[" ∧ eraseTypes "`\nhttp://x` as T" = "`\nhttp:" ∧
      eraseTypes "a // b\r + c as T" = "a" := by
  decide +kernel

end FlowScript
