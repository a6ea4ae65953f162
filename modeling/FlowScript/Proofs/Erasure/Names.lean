import FlowScript.Proofs.Erasure.Cuts
import FlowScript.Proofs.Parse.Built

/-!
# Lists of names

A list in braces that names types and values is written anew, with the values only. What is replaced reaches from the
opening brace of the list to the closing one; of an export, to the first closing brace after the last name, which may
stand in a comment.
-/

namespace FlowScript.Parse
open FlowScript.Grammar (Rule ruleBody ruleKind)
open FlowScript.Peg (Cursor Derivation Fits Matches)

/-! ## Names on the tree -/

/-- Whether a match is a list of names in braces. -/
def isList (t : Derivation Rule) : Bool := t.rule = .importNamed || t.rule = .exportTypeList || t.rule = .exportList

/-- Whether a match is a name of a list. -/
def isName (t : Derivation Rule) : Bool := t.rule = .importSpec || t.rule = .exportSpec

/-- Whether a declaration or a name is marked as a type. -/
def isMarked (t : Derivation Rule) : Bool := t.children.any (·.rule = .keyword .typeWord)

/-- The names of a list. -/
def names (list : Derivation Rule) : List (Derivation Rule) := list.children.filter isName

/-- Whether a list names a type. -/
def namesType (list : Derivation Rule) : Bool := (names list).any isMarked

/-- Whether a list names a value. -/
def namesValue (list : Derivation Rule) : Bool := (names list).any (!isMarked ·)

/-- Whether a list names types only. -/
def namesTypesOnly (list : Derivation Rule) : Bool := namesType list && !namesValue list

/-- Whether a list names types beside values. -/
def mixes (list : Derivation Rule) : Bool := namesType list && namesValue list

/-- The names of a list that are not marked as types, as they are written. -/
def written (list : Derivation Rule) : List (List Char) :=
  ((names list).filter (!isMarked ·)).map fun name => (Site.ofTree name).content

/-- A list that names types and values is written anew, with the values only, up to `stop`. -/
def rewriting (list : Derivation Rule) (stop : Nat) : List Edit :=
  if mixes list then [Edit.replace list.start.offset stop (braceList (written list))] else []

theorem rewriting_of_namesTypesOnly {list : Derivation Rule} (only : namesTypesOnly list = true) (stop : Nat) :
    rewriting list stop = [] := by
  obtain ⟨-, noValue⟩ := Bool.and_eq_true_iff.1 only
  rw [Bool.not_eq_true'] at noValue
  simp [rewriting, mixes, noValue]

theorem length_written_eq_iff (list : Derivation Rule) :
    (written list).length = (names list).length ↔ namesType list = false := by
  rw [written, List.length_map, List.length_filter_eq_length_iff, namesType, List.any_eq_false]
  simp

theorem isEmpty_written (list : Derivation Rule) : (written list).isEmpty = !namesValue list := by
  rw [Bool.eq_iff_iff]
  simp [written, namesValue, List.filter_eq_nil_iff]

variable {t list : Derivation Rule} {p : Part} {ts : List (Derivation Rule)} {ps : List Part}

/-- A list consists of names, and of words behind its braces. -/
theorem isName_or_isWord (fits : Fits grammar list) (named : isList list = true) :
    ∀ t ∈ list.children, isName t = true ∨ isWord t.rule = true := by
  intro t mem
  obtain ⟨-, called⟩ := inside_of_fits fits t mem
  have kinds : ∀ r ∈ [Rule.importNamed, .exportTypeList, .exportList], ∀ s ∈ (ruleBody r).calls,
      (s = .importSpec ∨ s = .exportSpec) ∨ isWord s = true := by decide
  have isRule : list.rule ∈ [Rule.importNamed, .exportTypeList, .exportList] := by
    simpa [isList, or_assoc] using named
  simpa [isName] using kinds _ isRule _ called

/-- A name is marked as a type or not. -/
theorem build_name (fits : Fits grammar t) (name : isName t = true) (built : build t = .ok p) :
    p.piece = .specifier (isMarked t) ∧ p.edits = [] := by
  have marked : ∀ parts, Built t.children parts → (parts.any (·.isKeyword .typeWord)) = isMarked t := fun parts all =>
    all.any_rule (· = .keyword .typeWord)
  simp only [isName, Bool.or_eq_true, decide_eq_true_eq] at name
  rcases name with is | is
  all_goals
    obtain ⟨parts, all, piece, edits⟩ := build_words fits built is rfl rfl (by decide) (fun _ _ _ => rfl) (by decide)
    exact ⟨piece.trans (by rw [marked parts all]), edits⟩

/-- A default or a namespace binds a value. -/
theorem build_binding (fits : Fits grammar t) (is : t.rule = .importDefault ∨ t.rule = .importNamespace)
    (built : build t = .ok p) : p.piece = .specifiers true ∧ p.edits = [] := by
  rcases is with is | is
  all_goals
    obtain ⟨parts, -, piece, edits⟩ := build_words fits built is rfl rfl (by decide) (fun _ _ _ => rfl) (by decide)
    exact ⟨piece, edits⟩

/-! ## Writing lists anew -/

/-- Of the parts of a list, the names that are kept are those that are not marked as types. -/
theorem Built.keptSpecifiers (h : Built ts ps) (fits : ∀ t ∈ ts, Fits grammar t)
    (kinds : ∀ t ∈ ts, isName t = true ∨ isWord t.rule = true) :
    Parse.keptSpecifiers ps =
        ((ts.filter isName).filter (!isMarked ·)).map (fun name => (Site.ofTree name).content) ∧
      (ps.filter isSpecifier).length = (ts.filter isName).length := by
  induction h with
  | nil => exact ⟨rfl, rfl⟩
  | @cons t p ts ps built _ ih =>
    obtain ⟨fitsHere, fits⟩ := List.forall_mem_cons.1 fits
    obtain ⟨kind, kinds⟩ := List.forall_mem_cons.1 kinds
    obtain ⟨kept, count⟩ := ih fits kinds
    rw [keptSpecifiers_eq] at kept ⊢
    have site : p.content = (Site.ofTree t).content := congrArg Site.content (site_of_build built)
    cases name : isName t with
    | true =>
      obtain ⟨piece, -⟩ := build_name fitsHere name built
      have specifier : isSpecifier p = true := by simp [isSpecifier, piece]
      cases marked : isMarked t with
      | true =>
        have goes : isKept p = false := by simp [isKept, piece, marked]
        simp [name, marked, goes, specifier, kept, count]
      | false =>
        have stays : isKept p = true := by simp [isKept, piece, marked]
        simp [name, marked, stays, specifier, kept, count, site]
    | false =>
      obtain ⟨piece, -⟩ := build_word fitsHere (kind.resolve_left (by simp [name])) built
      have other : isSpecifier p = false := by simp [isSpecifier, piece]
      have goes : isKept p = false := by simp [isKept, piece]
      simp [name, goes, other, kept, count]

/-- A list is written anew when it names types and values, and binds a value unless it names types only. -/
theorem Built.specifiers_eq (h : Built list.children ps) (fits : Fits grammar list) (named : isList list = true)
    (rule : Rule) (stop : Option Nat) :
    specifiers ⟨rule, list.start, list.stop⟩ stop ps =
      .ok (.specifiers (!namesTypesOnly list), stop.elim [] (rewriting list)) := by
  obtain ⟨kept, count⟩ := h.keptSpecifiers (fun t mem => (inside_of_fits fits t mem).1) (isName_or_isWord fits named)
  have keptWritten : Parse.keptSpecifiers ps = written list := kept
  have countNames : (ps.filter isSpecifier).length = (names list).length := count
  unfold specifiers
  change (if (Parse.keptSpecifiers ps).length = (ps.filter isSpecifier).length then _ else _) = _
  rw [keptWritten, countNames]
  cases types : namesType list with
  | false =>
    rw [if_pos ((length_written_eq_iff list).2 types)]
    cases stop <;> simp [Made.plain, rewriting, mixes, namesTypesOnly, types]
  | true =>
    rw [if_neg (mt (length_written_eq_iff list).1 (by simp [types])), isEmpty_written]
    cases values : namesValue list with
    | false => cases stop <;> simp [Made.plain, rewriting, mixes, namesTypesOnly, types, values]
    | true => cases stop <;> simp [rewriting, mixes, namesTypesOnly, types, values]

/-- The offset behind the first closing brace after the last name of a list. -/
def braceStop (list : Derivation Rule) : Nat :=
  match (names list).getLast? with
  | some name => name.stop.offset + Text.byteLength (name.stop.rest.takeWhile (· != '\x7d')) + 1
  | none => list.start.offset

/-- Where the text ends that a list is replaced up to. -/
def listStop (list : Derivation Rule) : Nat :=
  if list.rule = .exportList then braceStop list else list.stop.offset

theorem Built.getLast?_filter (h : Built ts ps) (P : Rule → Bool) :
    ((ps.filter (P ·.rule)).getLast?).map (·.toSite) = ((ts.filter (P ·.rule)).getLast?).map Site.ofTree := by
  have sites : (ps.filter (P ·.rule)).map (·.toSite) = (ts.filter (P ·.rule)).map Site.ofTree := by
    induction h with
    | nil => rfl
    | @cons t p ts ps built _ ih =>
      rw [List.filter_cons, List.filter_cons, rule_of_build built]
      split
      · rw [List.map_cons, List.map_cons, ih, site_of_build built]
      · exact ih
  rw [← List.getLast?_map, ← List.getLast?_map, sites]

/-- The brace that is taken for the closing one. -/
theorem Built.closingBrace_eq (h : Built list.children ps) (exported : ∀ t ∈ list.children, t.rule ≠ .importSpec)
    {name : Derivation Rule} (last : (names list).getLast? = some name) {text : List Char}
    (read : list.start.Reaches text name.stop) (brace : '\x7d' ∈ name.stop.rest) :
    closingBrace (Site.ofTree list) ps = some (braceStop list) := by
  have areNames : names list = list.children.filter (·.rule = .exportSpec) := by
    refine List.filter_congr fun t mem => ?_
    simp [isName, exported t mem]
  have found := h.getLast?_filter (· = .exportSpec)
  rw [← areNames, last, List.getLast?_filter] at found
  obtain ⟨p, is, site⟩ := Option.map_eq_some_iff.1 found
  have stop : p.stop = name.stop := congrArg Site.stop site
  have starts : (Site.ofTree list).start = list.start := rfl
  have dropped : Text.dropBytes? list.start.rest (name.stop.offset - list.start.offset) = some name.stop.rest := by
    rw [read.offset, Nat.add_sub_cancel_left, read.rest, Text.dropBytes?_append]
  simp only [closingBrace, is, stop, starts, dropped, List.contains_iff_mem.2 brace, if_true, braceStop, last]

/-- The rule of the names in a list. -/
def nameRule (list : Derivation Rule) : Rule := if list.rule = .importNamed then .importSpec else .exportSpec

theorem nameRule_plain (list : Derivation Rule) : ruleKind (nameRule list) = .plain := by
  unfold nameRule
  split <;> rfl

/-- The braces of a list, with its names between them, end at a place. -/
def ClosesAt (list : Derivation Rule) (brace : Cursor) : Prop :=
  Matches grammar (Grammar.braced (.call (nameRule list))) .loose list.start (some (names list, brace))

theorem closesAt_of_import (fits : Fits grammar list) (is : list.rule = .importNamed) :
    ClosesAt list list.stop := by
  have all : names list = list.children := by
    refine List.filter_eq_self.2 fun t mem => ?_
    have called := (inside_of_fits fits t mem).2
    rw [is] at called
    have only : ∀ r ∈ (ruleBody .importNamed).calls, r = .importSpec := by decide
    simp [isName, only _ called]
  cases fits with
  | @node r x start stop children visible body settled surrounded inside =>
    cases is
    obtain rfl := surrounded rfl
    rw [ClosesAt, all]
    exact body

theorem exists_closesAt_of_export (fits : Fits grammar list) (is : list.rule = .exportList) :
    ∃ brace tail, ClosesAt list brace ∧ brace.Reaches tail list.stop := by
  cases fits with
  | @node r x start stop children visible body settled surrounded inside =>
    cases is
    obtain rfl := surrounded rfl
    cases body with
    | @seq _ _ _ _ specs brace others _ first second =>
      obtain ⟨gap, skipped⟩ := grammar_wellFormed.skips brace
      obtain ⟨rest, read⟩ := (second.chain grammar_wellFormed).reaches
      refine ⟨brace, _, ?_, skipped.append read⟩
      have areNames : ∀ t ∈ specs, isName t = true := fun t mem => by
        simp [isName, (braced_listed rfl first).1 t mem]
      have areNone : ∀ t ∈ others, isName t = false := by
        intro t mem
        have called := Peg.mem_calls_of_mem_words (second.words nofun) (List.mem_map_of_mem mem)
        rcases List.mem_pair.1 called with word | word <;> simp [isName, word]
      have split : names (.node .exportList start stop (specs ++ others)) = specs := by
        change (specs ++ others).filter isName = specs
        rw [List.filter_append, List.filter_eq_self.2 areNames, List.filter_eq_nil_iff.2 (by simpa using areNone),
          List.append_nil]
      rw [ClosesAt, split]
      exact first

/-- The text of a list from brace to brace. -/
theorem ClosesAt.exists_inner {brace : Cursor} (closes : ClosesAt list brace) :
    ∃ inner, list.start.Reaches ('\x7b' :: inner ++ ['\x7d']) brace := by
  unfold ClosesAt at closes
  generalize names list = inside at closes
  cases closes with
  | @seq _ _ _ _ _ c₁ _ _ opening rest =>
    cases opening with
    | text comes =>
    obtain ⟨gap, skipped⟩ := grammar_wellFormed.skips c₁
    cases rest with
    | @seq _ _ _ _ _ c₂ _ _ between closing =>
      obtain ⟨text, read⟩ := (between.chain grammar_wellFormed).reaches
      obtain ⟨gap₂, skipped₂⟩ := grammar_wellFormed.skips c₂
      cases closing with
      | text comes₂ =>
      have whole := ((((Cursor.Reaches.of_after? comes).append skipped).append read).append skipped₂).append
        (Cursor.Reaches.of_after? comes₂)
      exact ⟨gap ++ text ++ gap₂, by simpa using whole⟩

/-- Between the last name of a list and its closing brace. -/
theorem ClosesAt.exists_gap {brace : Cursor} (closes : ClosesAt list brace) {name : Derivation Rule}
    (last : (names list).getLast? = some name) :
    ∃ text gap, list.start.Reaches text name.stop ∧ name.stop.Reaches (gap ++ ['\x7d']) brace := by
  obtain ⟨d, gap, listed, trail⟩ := (braced_listed (nameRule_plain list) closes).2.resolve_left (by
    intro none
    rw [none] at last
    cases last)
  obtain ⟨text, read, -⟩ := listed.exists_text
  rw [listed.stop_getLast last]
  exact ⟨text, gap, read, trail⟩

/-- The brace that is taken for the closing one is the closing one, unless another one stands before it. -/
theorem braceStop_eq_iff {name : Derivation Rule} (last : (names list).getLast? = some name) {gap : List Char}
    {brace : Cursor} (trail : name.stop.Reaches (gap ++ ['\x7d']) brace) :
    braceStop list ≤ brace.offset ∧ (braceStop list = brace.offset ↔ '\x7d' ∉ gap) := by
  have stop : brace.offset = name.stop.offset + Text.byteLength gap + 1 := by
    rw [trail.offset, Text.byteLength_append, Nat.add_assoc]
    rfl
  have found : braceStop list =
      name.stop.offset + Text.byteLength ((gap ++ '\x7d' :: brace.rest).takeWhile (· != '\x7d')) + 1 := by
    simp only [braceStop, last, trail.rest, List.append_assoc, List.singleton_append]
  by_cases other : '\x7d' ∈ gap
  · obtain ⟨after, split⟩ := exists_takeWhile_append other
    have same : (gap ++ '\x7d' :: brace.rest).takeWhile (· != '\x7d') = gap.takeWhile (· != '\x7d') :=
      takeWhile_append_of_mem other _
    have length := congrArg Text.byteLength split
    rw [Text.byteLength_append] at length
    have one : 1 ≤ Text.byteLength ('\x7d' :: after) := Nat.le_add_right _ _
    rw [same] at found
    simp only [other, not_true_eq_false, iff_false]
    omega
  · have same : (gap ++ '\x7d' :: brace.rest).takeWhile (· != '\x7d') = gap := by
      have free : ∀ c ∈ gap, (c != '\x7d') = true := fun c mem => bne_iff_ne.2 fun is => other (is ▸ mem)
      rw [List.takeWhile_append_of_pos free]
      simp
    rw [same] at found
    simp only [other, not_false_eq_true, iff_true]
    omega

/-- The braces of a list that is not marked as one of types close before the list ends; in an import they end it. -/
theorem exists_closesAt (fits : Fits grammar list) (named : list.rule = .importNamed ∨ list.rule = .exportList) :
    ∃ brace tail, ClosesAt list brace ∧ brace.Reaches tail list.stop ∧
      (list.rule = .importNamed → brace = list.stop) := by
  rcases named with is | is
  · exact ⟨list.stop, [], closesAt_of_import fits is, .refl _, fun _ => rfl⟩
  · obtain ⟨brace, tail, closes, toEnd⟩ := exists_closesAt_of_export fits is
    exact ⟨brace, tail, closes, toEnd, fun isImport => by cases is.symm.trans isImport⟩

/-- A list that names types beside values is replaced up to its closing brace, unless it is exported and another brace
    comes before that. -/
theorem listStop_eq_iff (named : list.rule = .importNamed ∨ list.rule = .exportList) {brace : Cursor}
    (closes : ClosesAt list brace) (ends : list.rule = .importNamed → brace = list.stop) (mixed : mixes list = true) :
    ∃ name gap, (names list).getLast? = some name ∧ name.stop.Reaches (gap ++ ['\x7d']) brace ∧
      listStop list ≤ brace.offset ∧ (listStop list = brace.offset ↔ (list.rule = .exportList → '\x7d' ∉ gap)) := by
  obtain ⟨name, last⟩ : ∃ name, (names list).getLast? = some name := by
    refine Option.ne_none_iff_exists'.1 fun none => ?_
    simp [mixes, namesType, List.getLast?_eq_none_iff.1 none] at mixed
  obtain ⟨text, gap, read, trail⟩ := closes.exists_gap last
  refine ⟨name, gap, last, trail, ?_⟩
  rcases named with is | is
  · have stop : listStop list = brace.offset := by simp [listStop, is, ends is]
    simp [stop, is]
  · have stop : listStop list = braceStop list := by simp [listStop, is]
    simpa [stop, is] using braceStop_eq_iff last trail

/-- The names of a list, and the words beside them, have no edits. -/
theorem Built.edits_of_names (h : Built list.children ps) (fits : Fits grammar list) (named : isList list = true) :
    ps.flatMap (·.edits) = [] := by
  refine h.edits_eq_nil fun t mem p built => ?_
  obtain ⟨fitsInside, -⟩ := inside_of_fits fits t mem
  rcases isName_or_isWord fits named t mem with name | word
  · exact (build_name fitsInside name built).2
  · exact (build_word fitsInside word built).2

/-- A list in an import is written anew within its braces. -/
theorem build_importNamed (fits : Fits grammar list) (is : list.rule = .importNamed) (built : build list = .ok p) :
    p.piece = .specifiers (!namesTypesOnly list) ∧ p.edits = rewriting list list.stop.offset := by
  have named : isList list = true := by simp [isList, is]
  obtain ⟨parts, own, all, made, -, edits⟩ := exists_of_build built is rfl rfl
  have specifiers := all.specifiers_eq fits named .importNamed (some list.stop.offset)
  obtain ⟨piece, rfl⟩ := Prod.mk.inj (Except.ok.inj (specifiers.symm.trans made))
  refine ⟨piece.symm, ?_⟩
  rw [edits, editsInside_of_ne (by decide), all.edits_of_names fits named]
  rfl

/-- What is rewritten of an exported list ends with the brace that is found. -/
theorem Built.rewriting_eq (h : Built list.children ps) (fits : Fits grammar list) (is : list.rule = .exportList) :
    (closingBrace (Site.ofTree list) ps).elim [] (rewriting list) = rewriting list (braceStop list) := by
  cases last : (names list).getLast? with
  | none =>
    have none := List.getLast?_eq_none_iff.1 last
    have never : ∀ n, rewriting list n = [] := fun n => by simp [rewriting, mixes, namesType, none]
    cases closingBrace (Site.ofTree list) ps <;> simp [never]
  | some name =>
    have exported : ∀ t ∈ list.children, t.rule ≠ .importSpec := by
      intro t mem other
      obtain ⟨-, called⟩ := inside_of_fits fits t mem
      rw [is, other] at called
      revert called
      decide
    obtain ⟨brace, -, closes, -⟩ := exists_closesAt_of_export fits is
    obtain ⟨text, gap, read, trail⟩ := closes.exists_gap last
    rw [h.closingBrace_eq exported last read (by simp [trail.rest])]
    rfl

/-- A list in an export is written anew up to the first closing brace after its last name. -/
theorem build_exportList (fits : Fits grammar list) (is : list.rule = .exportList) (built : build list = .ok p) :
    p.piece = .specifiers (!namesTypesOnly list) ∧ p.edits = rewriting list (braceStop list) := by
  have named : isList list = true := by simp [isList, is]
  obtain ⟨parts, own, all, made, -, edits⟩ := exists_of_build built is rfl rfl
  have specifiers := all.specifiers_eq fits named .exportList (closingBrace ⟨.exportList, list.start, list.stop⟩ parts)
  obtain ⟨piece, rfl⟩ := Prod.mk.inj (Except.ok.inj (specifiers.symm.trans made))
  refine ⟨piece.symm, ?_⟩
  rw [edits, editsInside_of_ne (by decide), all.edits_of_names fits named]
  exact is ▸ Built.rewriting_eq all fits is

/-- A list that is marked as one of types has no edits of its own. -/
theorem build_exportTypeList (fits : Fits grammar list) (is : list.rule = .exportTypeList)
    (built : build list = .ok p) : p.edits = [] := by
  obtain ⟨parts, all, -, edits⟩ := exists_of_build_plain built is rfl rfl (by decide) fun _ _ _ => rfl
  exact edits.trans (all.edits_of_names fits (by simp [isList, is]))

end FlowScript.Parse
