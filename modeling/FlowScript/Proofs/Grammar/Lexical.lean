import FlowScript.Proofs.Grammar.Script
import FlowScript.Proofs.Peg.Greedy

/-!
# Whole words and templates

An identifier is read up to a character that cannot go on with it, and it is none of the reserved words
(`exists_of_identifier`). A keyword, and an operator that is spelled like one, is read only where no longer word begins
with it (`wholeWord_of_isWordRule`). Between the quotes of a template its raw text and its substitutions leave no gaps
(`exists_of_template`).
-/

namespace FlowScript.Grammar
open FlowScript.Peg (Abut Cursor Derivation Matches Texture ofString oneOf)
open FlowScript.Unicode

/-- A character that may begin a name. -/
def beginsName (c : Char) : Bool := Identifier.isStart c || c == '_' || c == '$'

/-- A character that may go on with a name. -/
def continuesName (c : Char) : Bool := Identifier.isContinue c || c == '$'

/-- An identifier: a character that may begin a name, others that may go on with it, and no reserved word. -/
structure IsIdentifier (name : String) : Prop where
  spelled : ∃ first rest, name.toList = first :: rest ∧ beginsName first = true ∧ ∀ c ∈ rest, continuesName c = true
  free : name ∉ reservedWords

/-- A text that does not go on with a name in front of it. -/
def EndsName (after : List Char) : Prop := ∀ c ∈ after.head?, continuesName c = false

variable {c c' : Cursor} {ts : List (Derivation Rule)}

/-- A word stands where no name goes on after it. -/
theorem of_wordEnd {e : Body} (h : Matches grammar (.seq e wordEnd) .atomic c (some (ts, c'))) :
    EndsName c'.rest ∧ ∃ us, Matches grammar e .atomic c (some (us, c')) := by
  cases h with
  | seq first last =>
    cases last with
    | notAhead body => exact ⟨body.stops_of_char, _, first⟩

/-! ## Identifiers -/

/-- No reserved word is listed before a longer one that begins with it. -/
theorem reservedWords_pairwise : reservedWords.Pairwise fun v w => ¬v.toList <+: w.toList := by decide +kernel

theorem all_continuesName_of_mem_reservedWords :
    ∀ word ∈ reservedWords, word.toList.all continuesName = true := by decide +kernel

/-- Of the reserved words the first that comes next is the whole name, if the name is one of them. -/
theorem eq_of_first {name word : String} {earlier later : List String} {after : List Char}
    (listed : reservedWords = earlier ++ word :: later) (comes : word.toList <+: name.toList ++ after)
    (first : ∀ w ∈ earlier, ¬w.toList <+: name.toList ++ after) (ends : EndsName after)
    (mem : name ∈ reservedWords) : name = word := by
  rcases List.prefix_or_prefix_of_prefix (List.prefix_append name.toList after) comes with longer | shorter
  · obtain ⟨more, longer⟩ := longer
    cases more with
    | nil => exact String.toList_injective (by simpa using longer)
    | cons d more =>
      -- a longer word would go on with the name, which ends here
      rw [← longer, List.prefix_append_right_inj] at comes
      obtain ⟨rest, rfl⟩ := comes
      have stops : continuesName d = false := ends d rfl
      have all := all_continuesName_of_mem_reservedWords word (listed ▸ by simp)
      have goes : continuesName d = true := List.all_eq_true.1 all d (longer ▸ by simp)
      cases stops.symm.trans goes
  · have pairs := reservedWords_pairwise
    rw [listed] at mem pairs
    rcases List.mem_append.1 mem with mem | mem
    · exact absurd (List.prefix_append name.toList after) (first name mem)
    rcases List.mem_cons.1 mem with same | mem
    · exact same
    · have later := (List.pairwise_cons.1 (List.pairwise_append.1 pairs).2.1).1
      exact absurd shorter (later name mem)

/-- Where no reserved word is read, a name that is complete is none. -/
theorem not_mem_reservedWords {name : String} {after : List Char} (none : Matches grammar reserved .atomic c none)
    (here : c.rest = name.toList ++ after) (ends : EndsName after) : name ∉ reservedWords := by
  intro mem
  cases none with
  | seqFails first => exact first.not_prefix_of_oneOf name mem ⟨after, here.symm⟩
  | seqFailsLater first last =>
    obtain ⟨earlier, word, later, listed, read, before⟩ := first.exists_of_oneOf
    obtain rfl := eq_of_first listed (here ▸ read.prefix) (here ▸ before) ends mem
    cases last with
    | notAheadFails body =>
      obtain ⟨d, goes, front⟩ : ∃ d, continuesName d = true ∧ _ := body.exists_of_char
      obtain rfl : after = _ := List.append_cancel_left (here.symm.trans read.rest)
      have stops : continuesName d = false := ends d (List.head?_eq_some_iff.2 ⟨_, front.rest⟩)
      cases stops.symm.trans goes

/-- An identifier is read up to a character that cannot go on with it. -/
theorem exists_of_identifier (h : Matches grammar (ruleBody .identifier) .atomic c (some (ts, c'))) :
    ∃ name, IsIdentifier name ∧ c.Reaches name.toList c' ∧ EndsName c'.rest := by
  cases h with
  | seq ahead named =>
    cases ahead with
    | notAhead free =>
      cases named with
      | seq first rest =>
        obtain ⟨d, begins, one⟩ : ∃ d, beginsName d = true ∧ _ := first.exists_of_char
        obtain ⟨text, read, pass, stops⟩ : ∃ text, _ ∧ (∀ d ∈ text, continuesName d = true) ∧ _ :=
          Matches.exists_of_star (by decide) rest
        have whole : c.Reaches (d :: text) c' := one.append read
        refine ⟨String.ofList (d :: text), ⟨⟨d, text, String.toList_ofList, begins, pass⟩, ?_⟩, ?_, stops⟩
        · exact not_mem_reservedWords free (by rw [String.toList_ofList]; exact whole.rest) stops
        · rwa [String.toList_ofList]

/-! ## Keywords -/

/-- The rules of keywords, and of operators and literals some of which are spelled like keywords. -/
def isWordRule : Rule → Bool
  | .keyword _ | .operator _ | .unaryOp | .varKind | .forKind | .boolean | .nullLit | .thisExpr | .tsAsKw
  | .tsTypeOperator | .tsModifier => true
  | _ => false

/-- A match that is not the beginning of a longer word: if it ends as a name may, no name goes on behind it. -/
def WholeWord (c c' : Cursor) : Prop :=
  ∀ text d, c.Reaches (text ++ [d]) c' → continuesName d = true → EndsName c'.rest

/-- An expression that reads whole words, or what does not end as a name may. -/
def Guarded (e : Body) : Prop :=
  ∀ c c' ts, Matches grammar e .atomic c (some (ts, c')) → WholeWord c c'

namespace Guarded

variable {a b : Body} {symbol : String}

theorem word : Guarded (.seq a wordEnd) := fun _ _ _ h _ _ _ _ => (of_wordEnd h).1

theorem alt (first : Guarded a) (second : Guarded b) : Guarded (.alt a b) := by
  intro c c' ts h
  cases h with
  | altFirst h => exact first _ _ _ h
  | altSecond _ h => exact second _ _ _ h

/-- A sign does not end as a name may. -/
theorem sign (plain : symbol.toList.getLast?.all (!continuesName ·) = true) : Guarded (ofString symbol) := by
  intro c c' ts h text d read letter
  cases h with
  | text comes =>
    have same : text ++ [d] = symbol.toList :=
      read.unique (.of_after? comes)
    simp [← same, letter] at plain

/-- What is looked at behind an expression is none of it. -/
theorem before (h : Guarded a) : Guarded (.seq a (.notAhead b)) := by
  intro c c' ts whole
  cases whole with
  | seq first last =>
    cases last with
    | notAhead => exact h _ _ _ first

theorem operator (op : BinaryOp) : Guarded (operatorBody op) := by
  cases op with
  | instanceOf | inside => exact word
  | strictEq | strictNe | lte | gte => exact sign (by decide +kernel)
  | _ => exact before (sign (by decide +kernel))

theorem unary : Guarded unaryOpBody :=
  alt (sign (by decide +kernel)) <| alt (sign (by decide +kernel)) <| alt (before (sign (by decide +kernel))) <|
    alt (before (sign (by decide +kernel))) word

end Guarded

theorem guarded_of_isWordRule {r : Rule} (word : isWordRule r = true) : Guarded (ruleBody r) := by
  cases r with
  | keyword | varKind | forKind | boolean | nullLit | thisExpr | tsAsKw | tsTypeOperator | tsModifier =>
    exact Guarded.word
  | operator op => exact .operator op
  | unaryOp => exact .unary
  | _ => cases word

/-- A keyword, or an operator spelled like one, is never read as the beginning of a longer word. -/
theorem wholeWord_of_isWordRule {r : Rule} (word : isWordRule r = true) {x : Texture}
    (h : Matches grammar (.call r) x c (some (ts, c'))) : WholeWord c c' := by
  have token : ruleKind r = .token := by cases r <;> first | rfl | cases word
  have atomic : (grammar.kind r).inBody x = .atomic := by
    rw [show grammar.kind r = .token from token]
    rfl
  cases h with
  | call _ body => exact guarded_of_isWordRule word _ _ _ (atomic ▸ body)
  | callInToken _ body => exact guarded_of_isWordRule word _ _ _ (atomic ▸ body)

/-! ## Templates -/

/-- Text that does not end a template, judged with what comes after it: a backslash goes with the character behind it,
    no other character is a backquote, and no dollar sign opens a substitution. -/
inductive RawText (after : List Char) : List Char → Prop
  | nil : RawText after []
  | escaped (c : Char) {rest : List Char} (more : RawText after rest) : RawText after ('\\' :: c :: rest)
  | plain {c : Char} {rest : List Char} (open_ : c ≠ '\x60') (bare : c ≠ '\\')
    (apart : c = '$' → (rest ++ after).head? ≠ some '\x7b') (more : RawText after rest) : RawText after (c :: rest)

namespace RawText

variable {u v after after' : List Char}

protected theorem append (first : RawText (v ++ after) u) (second : RawText after v) : RawText after (u ++ v) := by
  induction first with
  | nil => exact second
  | escaped c _ ih => exact .escaped c ih
  | @plain c rest open_ bare apart _ ih =>
    have apart : c = '$' → (rest ++ v ++ after).head? ≠ some '\x7b' := by rwa [List.append_assoc]
    exact .plain open_ bare apart ih

/-- What comes after counts by its first character. -/
theorem of_head? (h : RawText after u) (same : after'.head? = after.head?) : RawText after' u := by
  induction h with
  | nil => exact .nil
  | escaped c _ ih => exact .escaped c ih
  | plain open_ bare apart _ ih => exact .plain open_ bare (by rwa [List.head?_append, same, ← List.head?_append]) ih

end RawText

/-- One piece of the raw text of a template. -/
def templatePiece : Body :=
  oneOf [Grammar.escaped, .seq "$" (.notAhead "\x7b"), .char fun c => c != '\x60' && c != '\\' && c != '$']

theorem exists_of_templatePiece (h : Matches grammar templatePiece .atomic c (some (ts, c'))) :
    ∃ text, c.Reaches text c' ∧ RawText c'.rest text := by
  cases h with
  | altFirst escaped =>
    cases escaped with
    | seq backslash any =>
      cases backslash with
      | text comes =>
        obtain ⟨d, -, one⟩ := any.exists_of_char
        exact ⟨['\\', d], (Cursor.Reaches.of_after? comes).append one, .escaped d .nil⟩
  | altSecond _ h =>
    cases h with
    | altFirst dollar =>
      cases dollar with
      | seq sign apart =>
        cases sign with
        | text comes =>
          cases apart with
          | notAhead brace =>
            cases brace with
            | textFails missing =>
              refine ⟨['$'], .of_after? comes, .plain (by decide) (by decide) (fun _ front => ?_) .nil⟩
              obtain ⟨rest, is⟩ := List.head?_eq_some_iff.1 front
              exact Cursor.not_prefix_of_after? missing ⟨rest, is.symm⟩
    | altSecond _ other =>
      obtain ⟨d, passes, one⟩ := other.exists_of_char
      simp only [Bool.and_eq_true, bne_iff_ne] at passes
      exact ⟨[d], one, .plain passes.1.1 passes.1.2 (fun dollar => absurd dollar passes.2) .nil⟩

/-- Pieces of raw text make raw text: each is judged with the text of those behind it. -/
theorem exists_of_templatePieces {x : FlowScript.Peg.Texture} (token : x = .atomic)
    (h : Matches grammar (.more templatePiece) x c (some (ts, c'))) : ∃ text, c.Reaches text c' ∧ RawText c'.rest text := by
  generalize is : Peg.more templatePiece = e at h
  induction h using Matches.success with
  | more first _ _ ih =>
    cases is
    subst token
    obtain ⟨u, read, raw⟩ := exists_of_templatePiece first
    obtain ⟨v, further, later⟩ := ih rfl rfl
    exact ⟨u ++ v, read.append further, (further.rest ▸ raw).append later⟩
  | moreNone => exact ⟨[], .refl _, .nil⟩
  | _ => cases is

/-- The text of a chunk of a template. -/
theorem exists_of_templateChunk (h : Matches grammar (ruleBody .templateChunk) .atomic c (some (ts, c'))) :
    ∃ text, c.Reaches text c' ∧ RawText c'.rest text := by
  have rounds : ∃ us, Matches grammar (.more templatePiece) .atomic c (some (us, c')) := by
    cases h with
    | seq first rest =>
      cases rest with
      | star second later => exact ⟨_, .more first (.more second later)⟩
      | starNone none => exact ⟨_, .more first (.moreNone none)⟩
  obtain ⟨us, pieces⟩ := rounds
  exact exists_of_templatePieces rfl pieces

/-- The parts of a template stand between its quotes without gaps. -/
theorem exists_of_template (h : Matches grammar (ruleBody .template) .compound c (some (ts, c'))) :
    ∃ opened closed, c.Reaches ['\x60'] opened ∧ Abut opened ts closed ∧ closed.Reaches ['\x60'] c' := by
  cases h with
  | seq first rest =>
    cases first with
    | text opens =>
      cases rest with
      | @seq _ _ _ _ us closed _ _ middle last =>
        cases last with
        | text closes =>
          rw [List.nil_append, List.append_nil]
          exact ⟨_, closed, .of_after? opens, middle.abut grammar_wellFormed rfl rfl, .of_after? closes⟩

/-- A substitution has one part, which stands between its braces. -/
theorem exists_of_substitution (h : Matches grammar (ruleBody .templateSubst) .loose c (some (ts, c'))) :
    ∃ t inner, ts = [t] ∧ c.Reaches (['$', '\x7b'] ++ inner ++ ['\x7d']) c' := by
  cases h with
  | seq first rest =>
    cases first with
    | text opens =>
      cases rest with
      | @seq _ _ _ _ us d _ _ middle last =>
        cases last with
        | text closes =>
          obtain ⟨before, skipped⟩ := grammar_wellFormed.skips _
          obtain ⟨behind, left⟩ := grammar_wellFormed.skips d
          obtain ⟨inner, read⟩ := (((middle.chain grammar_wellFormed).prepend skipped).append (.nil left)).reaches
          have whole := ((Cursor.Reaches.of_after? opens).append read).append (.of_after? closes)
          cases middle with
          | call visible body => exact ⟨_, inner, rfl, whole⟩
          | callInToken hidden => cases hidden

end FlowScript.Grammar
